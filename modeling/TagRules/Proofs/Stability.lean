import TagRules.Proofs.Layout

/-!
Texts that are cut once more. An operand is cut no further where it stands alone, and the tokens
of a text, written one after the other with a space between them, are the tokens of what is
written. The space keeps a lone `&` or `|` at the end of an operand from meeting the next token.
-/

namespace TagRules

open Text (byteSize isAllBlank)

namespace Token

/-- What a token is, wherever it stands. -/
inductive Kind where
  | operand (text : List Char)
  | operator (operator : Operator)
  deriving DecidableEq, Repr

def kind : Token → Kind
  | operand span => .operand span.text
  | operator op _ => .operator op

namespace Kind

def text : Kind → List Char
  | operand text => text
  | operator op => op.symbol.toList

/-- The tokens written one after the other, with a space between them. -/
def joined (kinds : List Kind) : List Char :=
  [' '].intercalate (kinds.map text)

/-- The token of a stretch of text, if it is not blank. -/
def ofText (text : List Char) : List Kind :=
  if isAllBlank text then [] else [operand (Text.trim text)]

/-- What comes between a token and those that follow it. -/
def gap (kinds : List Kind) : List Char :=
  if kinds.isEmpty then [] else [' ']

variable {kinds : List Kind} {piece : List Char}

theorem isAllBlank_gap (kinds : List Kind) : isAllBlank (gap kinds) = true := by
  unfold gap
  split <;> rfl

theorem joined_cons (kind : Kind) (kinds : List Kind) :
    joined (kind :: kinds) = kind.text ++ gap kinds ++ joined kinds := by
  cases kinds with
  | nil => simp [joined, gap]
  | cons next rest => simp [joined, gap, List.intercalate_cons_cons]

theorem joined_singleton (kind : Kind) : joined [kind] = kind.text := by
  rw [joined, List.map_singleton, List.intercalate_singleton]

theorem ofText_of_blank (h : isAllBlank piece = true) : ofText piece = [] :=
  if_pos h

theorem ofText_of_nonblank (h : isAllBlank piece = false) :
    ofText piece = [operand (Text.trim piece)] :=
  if_neg (Bool.eq_false_iff.1 h)

theorem ofText_of_trim_eq {text other : List Char} (h : Text.trim text = Text.trim other) :
    ofText text = ofText other := by
  rw [ofText, ofText, Text.isAllBlank_of_trim_eq h, h]

end Kind

theorem map_kind_ofSpan (span : Text.Span) : (ofSpan span).map kind = Kind.ofText span.text := by
  cases hblank : isAllBlank span.text with
  | true =>
    have htext : span.trim.text = [] := Text.isAllBlank_iff_trim.1 hblank
    rw [ofSpan, Kind.ofText_of_blank hblank, htext]
    rfl
  | false =>
    rw [ofSpan_of_nonblank hblank, Kind.ofText_of_nonblank hblank]
    rfl

end Token

open Token (Kind)

namespace Pieces

variable {pieces : Pieces} {text piece : List Char}

theorem exists_text_of_stretches {first : List Char} {others : List (List Char)}
    (h : pieces.stretches = first :: others) : ∃ back, pieces.text = first ++ back := by
  cases pieces with
  | last text =>
    cases h
    exact ⟨[], (List.append_nil _).symm⟩
  | before text operator rest =>
    cases h
    exact ⟨operator.symbol.toList ++ rest.text, List.append_assoc _ _ _⟩

/-- Where a text is cut, none of its pieces is cut any further. -/
theorem Cut.uncut {nesting : Nesting} {position : Nat} (h : Cut nesting position text pieces) :
    ∃ first others, pieces.stretches = first :: others ∧ Cut nesting position first (.last first) ∧
      ∀ other ∈ others, Cut .top 0 other (.last other) := by
  induction h with
  | done position => exact ⟨[], [], rfl, .done position, by simp⟩
  | @operator position c d rest op pieces _ _ ih =>
    obtain ⟨first, others, hstretches, hfirst, hothers⟩ := ih
    refine ⟨[], first :: others, by rw [stretches, hstretches], .done position, ?_⟩
    exact List.forall_mem_cons.2 ⟨hfirst.shift rfl 0, hothers⟩
  | @char nesting next position c rest pieces hpair hmove htail ih =>
    obtain ⟨first, others, hstretches, hfirst, hothers⟩ := ih
    refine ⟨c :: first, others, ?_, .char ?_ hmove hfirst, hothers⟩
    · cases pieces <;> simp_all [stretches, cons]
    · -- The piece begins as the rest of the text does.
      intro htop d hd
      obtain ⟨back, hback⟩ := exists_text_of_stretches hstretches
      apply hpair htop d
      rw [← htail.text_eq, hback, List.head?_append, hd]
      rfl

theorem cut_of_mem_stretches (h : ofText text = .ok pieces) (hpiece : piece ∈ pieces.stretches) :
    Cut .top 0 piece (.last piece) := by
  obtain ⟨first, others, hstretches, hfirst, hothers⟩ := ((ofText_eq_ok_iff 0).1 h).uncut
  rw [hstretches] at hpiece
  rcases List.mem_cons.1 hpiece with rfl | hpiece
  · exact hfirst
  · exact hothers piece hpiece

theorem Cut.trim_last (h : Cut .top 0 text (.last text)) :
    Cut .top 0 (Text.trim text) (.last (Text.trim text)) := by
  obtain ⟨front, back, inner, -, -, hinner, hpieces⟩ := h.trim
  cases inner with
  | last core =>
    have htext : core = Text.trim text := hinner.text_eq
    rwa [htext] at hinner
  | before core operator rest => cases hpieces

theorem tokenize_trim_stretch (h : Cut .top 0 text (.last text))
    (hblank : isAllBlank text = false) :
    tokenize (Text.trim text) = .ok [.operand (.whole (Text.trim text))] := by
  rw [← Text.isAllBlank_of_trim_eq (Text.trim_trim text)] at hblank
  have htrimmed : Text.Trimmed (Text.Span.whole (Text.trim text)).text := Text.trimmed_trim text
  rw [tokenize_of_cut_last h.trim_last hblank, Text.Span.trim_of_trimmed htrimmed]

/-- The tokens of the pieces, wherever these stand. -/
def kinds : Pieces → List Kind
  | last text => Kind.ofText text
  | before text operator rest => Kind.ofText text ++ .operator operator :: rest.kinds

theorem map_kind_tokens (pieces : Pieces) (start : Nat) :
    (pieces.tokens start).map Token.kind = pieces.kinds := by
  induction pieces generalizing start with
  | last text => exact Token.map_kind_ofSpan _
  | before text operator rest ih =>
    rw [tokens, List.map_append, List.map_cons, Token.map_kind_ofSpan, ih, kinds]
    rfl

theorem kinds_prepend {front : List Char} (hfront : isAllBlank front = true) (pieces : Pieces) :
    (pieces.prepend front).kinds = pieces.kinds := by
  have htrim := Text.trim_blank_append hfront
  cases pieces with
  | last text => rw [prepend, kinds, kinds, Kind.ofText_of_trim_eq (htrim text)]
  | before text operator rest =>
    rw [prepend, kinds, kinds, Kind.ofText_of_trim_eq (htrim text)]

/-- What is written for a piece in front of an operator: its core and a space, or nothing. -/
theorem exists_front (h : Cut .top 0 piece (.last piece)) :
    ∃ front, Cut .top 0 front (.last front) ∧ Text.trim front = Text.trim piece ∧
      (∀ c, front.getLast? = some c → ∀ op : Operator, c ≠ op.char) ∧
      ∀ kind kinds, Kind.joined (Kind.ofText piece ++ kind :: kinds) =
        front ++ Kind.joined (kind :: kinds) := by
  cases hblank : isAllBlank piece with
  | true =>
    refine ⟨[], .done 0, (Text.isAllBlank_iff_trim.1 hblank).symm, by simp, ?_⟩
    intro kind kinds
    rw [Kind.ofText_of_blank hblank, List.nil_append, List.nil_append]
  | false =>
    have hspace : isAllBlank [' '] = true := rfl
    refine ⟨Text.trim piece ++ [' '], h.trim_last.extend hspace, ?_, ?_, ?_⟩
    · rw [Text.trim_append_blank hspace, Text.trim_trim]
    · intro c hc
      rw [List.getLast?_concat] at hc
      cases hc
      exact (inert_of_isBlank rfl).2
    · intro kind kinds
      rw [Kind.ofText_of_nonblank hblank, List.singleton_append, Kind.joined_cons]
      rfl

/-- The tokens of the pieces make a text that is cut into pieces with the same tokens. -/
theorem exists_cut_joined (h : ∀ piece ∈ pieces.stretches, Cut .top 0 piece (.last piece)) :
    ∃ others, Cut .top 0 (Kind.joined pieces.kinds) others ∧ others.kinds = pieces.kinds := by
  induction pieces with
  | last text =>
    have huncut := h text (List.mem_singleton_self text)
    rw [kinds]
    cases hblank : isAllBlank text with
    | true =>
      rw [Kind.ofText_of_blank hblank]
      exact ⟨.last [], .done 0, rfl⟩
    | false =>
      refine ⟨.last (Text.trim text), ?_, Kind.ofText_of_trim_eq (Text.trim_trim text)⟩
      have hjoined : Kind.joined (Kind.ofText text) = Text.trim text := by
        rw [Kind.ofText_of_nonblank hblank, Kind.joined_singleton, Kind.text]
      rw [hjoined]
      exact huncut.trim_last
  | before text op rest ih =>
    rw [stretches, List.forall_mem_cons] at h
    obtain ⟨others, hcut, hkinds⟩ := ih h.2
    obtain ⟨front, hfront, htrim, hlast, hjoined⟩ := exists_front h.1
    have hgap := Kind.isAllBlank_gap rest.kinds
    refine ⟨.before front op (others.prepend (Kind.gap rest.kinds)), ?_, ?_⟩
    · have hback := hcut.prepend_inert (inert_of_isAllBlank hgap)
      have hwhole : Cut .top 0 (front ++ op.symbol.toList ++ (Kind.gap rest.kinds ++
          Kind.joined rest.kinds)) (.before front op _) := hfront.join hlast op hback
      rw [kinds, hjoined, Kind.joined_cons, Kind.text, List.append_assoc, ← List.append_assoc front]
      exact hwhole
    · rw [kinds, kinds, kinds_prepend hgap, hkinds, Kind.ofText_of_trim_eq htrim]

end Pieces

/-- An operand of a text is the only token of its own text. The tokens of a text, written with a
space between them, are the tokens of what is written. -/
theorem tokenize_stable {text : List Char} {tokens : List Token} (h : tokenize text = .ok tokens) :
    (∀ span, .operand span ∈ tokens → tokenize span.text = .ok [.operand (.whole span.text)]) ∧
    ∃ others, tokenize (Kind.joined (tokens.map Token.kind)) = .ok others ∧
      others.map Token.kind = tokens.map Token.kind := by
  obtain ⟨pieces, hpieces, rfl⟩ := tokenize_eq_ok_iff.1 h
  have huncut : ∀ piece ∈ pieces.stretches, Pieces.Cut .top 0 piece (.last piece) :=
    fun piece hpiece => Pieces.cut_of_mem_stretches hpieces hpiece
  constructor
  · intro span hspan
    obtain ⟨stretch, hstretch, hblank, rfl⟩ := Pieces.operand_mem_tokens.1 hspan
    exact Pieces.tokenize_trim_stretch (huncut _ (Pieces.text_mem_stretches hstretch)) hblank
  · obtain ⟨others, hcut, hkinds⟩ := Pieces.exists_cut_joined huncut
    rw [pieces.map_kind_tokens]
    have htokens := tokenize_eq_ok_iff.2 ⟨others, (Pieces.ofText_eq_ok_iff 0).2 hcut, rfl⟩
    refine ⟨others.tokens 0, htokens, ?_⟩
    rw [others.map_kind_tokens, hkinds]

/-- A lone `&` stays one on either side of an operator, and the space between two operators that
stand side by side keeps them two. -/
theorem tokenize_stable_with_lone_ampersands :
    let text := "\u00a0a &&&b||'||' & && &&& ".toList
    let last := "'||' &".toList
    let tokens : List Token := [.operand ⟨['a'], 2⟩, .operator .and 4, .operand ⟨['&', 'b'], 6⟩,
      .operator .or 8, .operand ⟨last, 10⟩, .operator .and 17, .operator .and 20,
      .operand ⟨['&'], 22⟩]
    tokenize text = .ok tokens ∧ tokenize last = .ok [.operand ⟨last, 0⟩] ∧
      Token.Kind.joined (tokens.map Token.kind) = "a && &b || '||' & && && &".toList ∧
      ∃ others, tokenize "a && &b || '||' & && && &".toList = .ok others ∧
        others.map Token.kind = tokens.map Token.kind := by
  intro text last tokens
  have htokens : tokenize text = .ok tokens := Outcomes.eq_ok_of_toOption (by decide +kernel)
  have hjoined : Token.Kind.joined (tokens.map Token.kind) =
      "a && &b || '||' & && && &".toList := by decide +kernel
  obtain ⟨halone, hagain⟩ := tokenize_stable htokens
  rw [hjoined] at hagain
  exact ⟨htokens, halone ⟨last, 10⟩ (by simp [tokens]), hjoined, hagain⟩

end TagRules

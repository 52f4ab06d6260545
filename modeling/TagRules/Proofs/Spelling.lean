import Mathlib.Data.List.Basic
import TagRules.Proofs.Cutting
import TagRules.Rule.Atom

/-!
How membership tests may be written. The spellings are given as relations between a
text and what it stands for, and the readers accept exactly these spellings. A
spelling is balanced and keeps its operators inside brackets, so a rule text is
never cut inside one.
-/

namespace TagRules

open Text (isAllBlank isBlank)

/-- A key between two quotes of a kind that does not occur in it. -/
inductive LiteralText : List Char → String → Prop where
  | intro (quote : Quote) {key : List Char} :
      quote.char ∉ key → LiteralText (quote.char :: key ++ [quote.char]) (String.ofList key)

/-- One or more literals with commas between them and blanks around each. -/
inductive LiteralsText : List Char → List String → Prop where
  | last {before text after : List Char} {key : String} :
      isAllBlank before = true → LiteralText text key → isAllBlank after = true →
        LiteralsText (before ++ text ++ after) [key]
  | more {before text after rest : List Char} {key : String} {keys : List String} :
      isAllBlank before = true → LiteralText text key → isAllBlank after = true →
        LiteralsText rest keys → LiteralsText (before ++ text ++ after ++ ',' :: rest) (key :: keys)

/-- Literals in square brackets, or no literal there. -/
inductive ArrayText : List Char → List String → Prop where
  | empty {inner : List Char} : isAllBlank inner = true → ArrayText ('[' :: inner ++ [']']) []
  | filled {inner : List Char} {keys : List String} :
      LiteralsText inner keys → ArrayText ('[' :: inner ++ [']']) keys

theorem Quote.isBlank_char (quote : Quote) : isBlank quote.char = false := by
  cases quote <;> rfl

theorem LiteralText.trimmed {text : List Char} {key : String} (h : LiteralText text key) :
    Text.Trimmed text := by
  obtain ⟨quote, _⟩ := h
  constructor
  · intro c hc
    cases hc
    exact quote.isBlank_char
  · intro c hc
    rw [List.getLast?_concat] at hc
    cases hc
    exact quote.isBlank_char

theorem ArrayText.trimmed {text : List Char} {keys : List String} (h : ArrayText text keys) :
    Text.Trimmed text := by
  cases h with
  | empty _ => exact Bracket.trimmed_enclosed .square _
  | filled _ => exact Bracket.trimmed_enclosed .square _

theorem literal?_eq_some_iff {text : List Char} {key : String} :
    literal? text = some key ↔ LiteralText text key := by
  constructor
  · intro h
    cases text with
    | nil => cases h
    | cons c rest =>
      obtain ⟨quote, hquote, hrest⟩ := Option.bind_eq_some_iff.1 h
      obtain ⟨inner, hinner, hkey⟩ := Option.bind_eq_some_iff.1 hrest
      rw [Quote.ofChar?_eq_some] at hquote
      rw [Text.beforeLast?_eq_some] at hinner
      subst hquote hinner
      split at hkey
      · cases hkey
      · next hfree =>
        cases hkey
        exact .intro quote hfree
  · rintro ⟨quote, hfree⟩
    rw [List.cons_append, literal?, Quote.ofChar?_eq_some.2 rfl]
    simp only [Option.bind_eq_bind, Option.bind_some, Text.beforeLast?_concat]
    rw [if_neg hfree]

namespace LiteralList

/-- What may follow a literal of a list: the end, or a comma and further literals. -/
def Tail (text : List Char) (keys : List String) : Prop :=
  isAllBlank text = true ∧ keys = [] ∨
    ∃ before rest, isAllBlank before = true ∧ text = before ++ ',' :: rest ∧ LiteralsText rest keys

/-- What a state of the reading stands for: the text that it may go on with, and the
keys that this text adds. -/
def Rest : State → List Char → List String → Prop
  | .wanting, text, keys => LiteralsText text keys
  | .within quote read, text, keys =>
    ∃ key rest others, quote.char ∉ key ∧ text = key ++ quote.char :: rest ∧ Tail rest others ∧
      keys = String.ofList (read.reverse ++ key) :: others
  | .complete, text, keys => Tail text keys

theorem literalsText_of_tail {before after : List Char} {quote : Quote} {key : List Char}
    {keys : List String} (hbefore : isAllBlank before = true) (hfree : quote.char ∉ key)
    (h : Tail after keys) :
    LiteralsText (before ++ quote.char :: (key ++ quote.char :: after))
      (String.ofList key :: keys) := by
  rcases h with ⟨hblank, rfl⟩ | ⟨blanks, rest, hblank, rfl, hrest⟩
  · have h := LiteralsText.last hbefore (.intro quote hfree) hblank
    simpa using h
  · have h := LiteralsText.more hbefore (.intro quote hfree) hblank hrest
    simpa using h

theorem blank_cons_tail {c : Char} {rest : List Char} {keys : List String}
    (hc : isBlank c = true) (h : Tail rest keys) : Tail (c :: rest) keys := by
  rcases h with ⟨hblank, hkeys⟩ | ⟨before, text, hblank, rfl, hrest⟩
  · exact Or.inl ⟨by simp [hc, hblank], hkeys⟩
  · exact Or.inr ⟨c :: before, text, by simp [hc, hblank], rfl, hrest⟩

theorem blank_cons_literalsText {c : Char} {rest : List Char} {keys : List String}
    (hc : isBlank c = true) (h : LiteralsText rest keys) : LiteralsText (c :: rest) keys := by
  cases h with
  | @last before text after key hbefore htext hafter =>
    have hblank : isAllBlank (c :: before) = true := by simp [hc, hbefore]
    exact .last hblank htext hafter
  | @more before text after rest key keys hbefore htext hafter hrest =>
    have hblank : isAllBlank (c :: before) = true := by simp [hc, hbefore]
    exact .more hblank htext hafter hrest

/-- Every text that is read is one that its state stands for. The induction is on the
reading, which takes one character at a time. -/
theorem rest_of_read? {state : State} {text : List Char} {keys : List String}
    (h : read? state text = some keys) : Rest state text keys := by
  induction state, text using read?.induct generalizing keys with
  | case1 => cases h
  | case2 c rest quote hquote ih =>
    rw [read?, hquote] at h
    obtain ⟨key, after, others, hfree, rfl, htail, rfl⟩ := ih h
    rw [Quote.ofChar?_eq_some] at hquote
    subst hquote
    exact literalsText_of_tail Text.isAllBlank_nil hfree htail
  | case3 c rest hquote hblank ih =>
    rw [read?, hquote] at h
    simp only [hblank, if_true] at h
    exact blank_cons_literalsText hblank (ih h)
  | case4 c rest hquote hblank =>
    rw [read?, hquote] at h
    simp [hblank] at h
  | case5 => cases h
  | case6 quote read rest ih =>
    rw [read?, if_pos rfl] at h
    obtain ⟨others, hothers, rfl⟩ := Option.map_eq_some_iff.1 h
    exact ⟨[], rest, others, List.not_mem_nil, rfl, ih hothers, by simp⟩
  | case7 quote read c rest hc ih =>
    rw [read?, if_neg hc] at h
    obtain ⟨key, after, others, hfree, rfl, htail, rfl⟩ := ih h
    refine ⟨c :: key, after, others, ?_, rfl, htail, by simp⟩
    rw [List.mem_cons, not_or]
    exact ⟨fun heq => hc heq.symm, hfree⟩
  | case8 =>
    cases h
    exact Or.inl ⟨rfl, rfl⟩
  | case9 rest ih =>
    rw [read?, if_pos rfl] at h
    exact Or.inr ⟨[], rest, rfl, rfl, ih h⟩
  | case10 c rest hc hblank ih =>
    rw [read?, if_neg hc, if_pos hblank] at h
    exact blank_cons_tail hblank (ih h)
  | case11 c rest hc hblank =>
    rw [read?, if_neg hc, if_neg hblank] at h
    cases h

theorem read?_wanting_blank {before : List Char} (hbefore : isAllBlank before = true)
    (text : List Char) : read? .wanting (before ++ text) = read? .wanting text := by
  induction before with
  | nil => rfl
  | cons c rest ih =>
    rw [Text.isAllBlank_cons, Bool.and_eq_true] at hbefore
    have hquote : Quote.ofChar? c = none := by
      cases h : Quote.ofChar? c with
      | none => rfl
      | some quote =>
        rw [Quote.ofChar?_eq_some.1 h, quote.isBlank_char] at hbefore
        cases hbefore.1
    rw [List.cons_append, read?, hquote]
    simp only [hbefore.1, if_true]
    exact ih hbefore.2

theorem read?_complete_blank {before : List Char} (hbefore : isAllBlank before = true)
    (text : List Char) : read? .complete (before ++ text) = read? .complete text := by
  induction before with
  | nil => rfl
  | cons c rest ih =>
    rw [Text.isAllBlank_cons, Bool.and_eq_true] at hbefore
    have hcomma : c ≠ ',' := by
      rintro rfl
      cases hbefore.1
    rw [List.cons_append, read?, if_neg hcomma, if_pos hbefore.1]
    exact ih hbefore.2

theorem read?_within {quote : Quote} {key : List Char} (hfree : quote.char ∉ key)
    (read rest : List Char) :
    read? (.within quote read) (key ++ quote.char :: rest) =
      (read? .complete rest).map (String.ofList (read.reverse ++ key) :: ·) := by
  induction key generalizing read with
  | nil => rw [List.nil_append, read?, if_pos rfl, List.append_nil]
  | cons c key ih =>
    rw [List.mem_cons, not_or] at hfree
    rw [List.cons_append, read?, if_neg (fun h => hfree.1 h.symm), ih hfree.2]
    simp

theorem read?_literal {text : List Char} {key : String} (h : LiteralText text key)
    (rest : List Char) :
    read? .wanting (text ++ rest) = (read? .complete rest).map (key :: ·) := by
  obtain ⟨quote, hfree⟩ := h
  rw [List.append_assoc, List.cons_append, read?, Quote.ofChar?_eq_some.2 rfl]
  exact read?_within hfree [] rest

theorem read?_of_literalsText {text : List Char} {keys : List String} (h : LiteralsText text keys) :
    read? .wanting text = some keys := by
  induction h with
  | last hbefore htext hafter =>
    have hend := read?_complete_blank hafter []
    rw [List.append_nil] at hend
    rw [List.append_assoc, read?_wanting_blank hbefore, read?_literal htext, hend]
    rfl
  | more hbefore htext hafter _ ih =>
    rw [List.append_assoc, List.append_assoc, read?_wanting_blank hbefore, read?_literal htext,
      read?_complete_blank hafter, read?, if_pos rfl, ih]
    rfl

end LiteralList

theorem LiteralsText.not_isAllBlank {text : List Char} {keys : List String}
    (h : LiteralsText text keys) : isAllBlank text = false := by
  cases h with
  | last _ htext _ =>
    obtain ⟨quote, _⟩ := htext
    simp [quote.isBlank_char]
  | more _ htext _ _ =>
    obtain ⟨quote, _⟩ := htext
    simp [quote.isBlank_char]

theorem literals?_eq_some_iff {text : List Char} {keys : List String} :
    literals? text = some keys ↔ ArrayText (Text.trim text) keys := by
  constructor
  · intro h
    unfold literals? at h
    split at h
    · next rest htrim =>
      obtain ⟨inner, hinner, hkeys⟩ := Option.bind_eq_some_iff.1 h
      rw [Text.beforeLast?_eq_some] at hinner
      subst hinner
      rw [htrim]
      split at hkeys
      · next hblank =>
        cases hkeys
        exact .empty hblank
      · exact .filled (LiteralList.rest_of_read? hkeys)
    · cases h
  · intro h
    generalize htrim : Text.trim text = core at h
    rw [literals?, htrim]
    cases h with
    | empty hblank => simp [hblank]
    | filled hinner => simp [hinner.not_isAllBlank, LiteralList.read?_of_literalsText hinner]

theorem Atom.call?_eq_some_iff {text args : List Char} {name : String} :
    call? text = some (name, args) ↔
      '(' ∉ name.toList ∧ text = "scope.".toList ++ name.toList ++ '(' :: args ++ [')'] := by
  constructor
  · intro h
    obtain ⟨call, hcall, hrest⟩ := Option.bind_eq_some_iff.1 h
    rw [List.isPrefixOf?_eq_some_iff_append_eq] at hcall
    split at hrest
    · next rest hdrop =>
      obtain ⟨inner, hinner, hpair⟩ := Option.bind_eq_some_iff.1 hrest
      cases hpair
      rw [Text.beforeLast?_eq_some] at hinner
      subst hinner
      have hsplit := List.takeWhile_append_dropWhile (p := (· != '(')) (l := call)
      rw [hdrop] at hsplit
      constructor
      · intro hmem
        rw [String.toList_ofList] at hmem
        have htake := List.all_eq_true.1 List.all_takeWhile _ hmem
        simp at htake
      · rw [← hsplit] at hcall
        have hname : (String.ofList (call.takeWhile (· != '('))).toList =
            call.takeWhile (· != '(') := String.toList_ofList
        rw [hname, ← hcall]
        simp only [List.append_assoc, List.cons_append]
    · cases hrest
  · rintro ⟨hname, rfl⟩
    have hpass : ∀ c ∈ name.toList, (c != '(') = true := by
      intro c hc
      rw [bne_iff_ne]
      rintro rfl
      exact hname hc
    have hprefix : "scope.".toList.isPrefixOf?
        ("scope.".toList ++ name.toList ++ '(' :: args ++ [')']) =
          some (name.toList ++ '(' :: (args ++ [')'])) := by
      rw [List.isPrefixOf?_eq_some_iff_append_eq]
      simp
    rw [call?, hprefix]
    simp [List.dropWhile_append_of_pos hpass, List.takeWhile_append_of_pos hpass]

/-- A membership test as it may be written, without blanks around it. -/
inductive Atom.Spelling : List Char → Atom → Prop where
  | has {args : List Char} {key : String} : LiteralText (Text.trim args) key →
      Spelling ("scope.has(".toList ++ args ++ [')']) (.has key)
  | hasAny {args : List Char} {keys : List String} : ArrayText (Text.trim args) keys →
      Spelling ("scope.hasAny(".toList ++ args ++ [')']) (.hasAny keys)
  | hasAll {args : List Char} {keys : List String} : ArrayText (Text.trim args) keys →
      Spelling ("scope.hasAll(".toList ++ args ++ [')']) (.hasAll keys)

theorem Atom.ofTrimmed_eq_ok_iff {span : Text.Span} {test : Atom} :
    ofTrimmed span = .ok test ↔ Spelling span.text test := by
  constructor
  · intro h
    unfold ofTrimmed at h
    split at h
    · next args hcall =>
      obtain ⟨-, htext⟩ := call?_eq_some_iff.1 hcall
      split at h
      · next key hkey =>
        cases h
        rw [htext]
        exact .has (literal?_eq_some_iff.1 hkey)
      · cases h
    · next args hcall =>
      obtain ⟨-, htext⟩ := call?_eq_some_iff.1 hcall
      split at h
      · next keys hkeys =>
        cases h
        rw [htext]
        exact .hasAny (literals?_eq_some_iff.1 hkeys)
      · cases h
    · next args hcall =>
      obtain ⟨-, htext⟩ := call?_eq_some_iff.1 hcall
      split at h
      · next keys hkeys =>
        cases h
        rw [htext]
        exact .hasAll (literals?_eq_some_iff.1 hkeys)
      · cases h
    · cases h
  · intro h
    generalize htext : span.text = text at h
    cases h with
    | @has args key hkey =>
      have hcall : call? span.text = some ("has", args) :=
        call?_eq_some_iff.2 ⟨by decide, htext⟩
      simp only [ofTrimmed, hcall, literal?_eq_some_iff.2 hkey]
    | @hasAny args keys hkeys =>
      have hcall : call? span.text = some ("hasAny", args) :=
        call?_eq_some_iff.2 ⟨by decide, htext⟩
      simp only [ofTrimmed, hcall, literals?_eq_some_iff.2 hkeys]
    | @hasAll args keys hkeys =>
      have hcall : call? span.text = some ("hasAll", args) :=
        call?_eq_some_iff.2 ⟨by decide, htext⟩
      simp only [ofTrimmed, hcall, literals?_eq_some_iff.2 hkeys]

/-- A text is read as a test exactly where its trimmed core spells one. -/
theorem Atom.parse_eq_ok_iff {text : List Char} {test : Atom} :
    parse text = .ok test ↔ Spelling (Text.trim text) test :=
  ofTrimmed_eq_ok_iff

theorem LiteralText.balanced {text : List Char} {key : String} (h : LiteralText text key) :
    Balanced text := by
  obtain ⟨quote, hfree⟩ := h
  exact .literal quote hfree .nil

theorem LiteralsText.balanced {text : List Char} {keys : List String}
    (h : LiteralsText text keys) : Balanced text := by
  induction h with
  | last hbefore htext hafter =>
    exact ((Balanced.of_isAllBlank hbefore).append htext.balanced).append (.of_isAllBlank hafter)
  | more hbefore htext hafter _ ih =>
    have hfirst :=
      ((Balanced.of_isAllBlank hbefore).append htext.balanced).append (.of_isAllBlank hafter)
    exact hfirst.append (.plain rfl ih)

theorem ArrayText.balanced {text : List Char} {keys : List String} (h : ArrayText text keys) :
    Balanced text := by
  cases h with
  | empty hblank => exact (Balanced.of_isAllBlank hblank).enclosed .square
  | filled hinner => exact hinner.balanced.enclosed .square

namespace Atom

/-- Every spelling is a name followed by balanced arguments in parentheses. -/
theorem Spelling.shape {text : List Char} {test : Atom} (h : Spelling text test) :
    ∃ name args, (∀ c ∈ 's' :: name, Inert c) ∧ Balanced args ∧
      text = 's' :: name ++ '(' :: args ++ [')'] := by
  cases h with
  | @has args key hkey =>
    exact ⟨"cope.has".toList, args, inert_of_all (by decide), hkey.balanced.of_trim, rfl⟩
  | @hasAny args keys hkeys =>
    exact ⟨"cope.hasAny".toList, args, inert_of_all (by decide), hkeys.balanced.of_trim, rfl⟩
  | @hasAll args keys hkeys =>
    exact ⟨"cope.hasAll".toList, args, inert_of_all (by decide), hkeys.balanced.of_trim, rfl⟩

theorem Spelling.head {text : List Char} {test : Atom} (h : Spelling text test) :
    text.head? = some 's' := by
  obtain ⟨name, args, -, -, rfl⟩ := h.shape
  rfl

theorem Spelling.last {text : List Char} {test : Atom} (h : Spelling text test) :
    text.getLast? = some ')' := by
  obtain ⟨name, args, -, -, rfl⟩ := h.shape
  exact List.getLast?_concat

theorem Spelling.not_isAllBlank {text : List Char} {test : Atom} (h : Spelling text test) :
    isAllBlank text = false := by
  obtain ⟨name, args, -, -, rfl⟩ := h.shape
  rfl

theorem Spelling.trimmed {text : List Char} {test : Atom} (h : Spelling text test) :
    Text.Trimmed text := by
  constructor
  · intro c hc
    rw [h.head] at hc
    cases hc
    rfl
  · intro c hc
    rw [h.last] at hc
    cases hc
    rfl

theorem Spelling.balanced {text : List Char} {test : Atom} (h : Spelling text test) :
    Balanced text := by
  obtain ⟨name, args, hname, hargs, rfl⟩ := h.shape
  have hfront := Balanced.of_plain (fun c hc => (hname c hc).1)
  have hwhole := hfront.append (hargs.enclosed .round)
  rwa [← List.append_assoc] at hwhole

/-- No operator of a spelling stands outside its parentheses. -/
theorem Spelling.cut {text : List Char} {test : Atom} (h : Spelling text test) :
    Pieces.Cut .top 0 text (.last text) := by
  obtain ⟨name, args, hname, hargs, rfl⟩ := h.shape
  have hcall := Pieces.Cut.prepend_enclosed hargs .round (.done 0)
  have hwhole := Pieces.Cut.prepend_inert hname hcall
  simpa [Pieces.prepend, Bracket.opening, Bracket.closing] using hwhole

theorem parse_of_spelling {text : List Char} {test : Atom} (h : Spelling text test) :
    parse text = .ok test := by
  rwa [parse_eq_ok_iff, Text.trim_of_trimmed h.trimmed]

/-- A text that is read as a test is cut nowhere. -/
theorem cut_of_parse {text : List Char} {test : Atom} (h : parse text = .ok test) :
    Pieces.Cut .top 0 text (.last text) := by
  obtain ⟨before, after, hbefore, hafter, htext⟩ := Text.exists_trim text
  have hcut := (parse_eq_ok_iff.1 h).cut.padded_last hbefore hafter
  rwa [← htext] at hcut

end Atom

end TagRules

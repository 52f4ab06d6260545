import TagRules.Proofs.Cutting

/-!
The scan of a whole text. `Nesting.scan` is what a stretch of text leaves open, and
`Nesting.Closes` says which texts close what is open. So a text can be cut exactly where it
is balanced, whatever is cut out of a balanced text is balanced again, and parentheses wrap a
text exactly where they enclose a balanced one.
-/

namespace TagRules

open Text (byteSize isAllBlank isBlank)
open Outcomes (bind_eq_ok_iff map_eq_ok_iff map_eq_error_iff)

namespace Nesting

/-- What is open after a text that stands at offset `position`. -/
def scan (nesting : Nesting) (position : Nat) : List Char → Except ScanError Nesting
  | [] => .ok nesting
  | c :: rest => do
    let next ← nesting.step c position
    next.scan (position + c.utf8Size) rest

/-- The text closes the brackets, the innermost first, and opens nothing that it leaves
open. -/
def ClosesBrackets : List (Bracket × Nat) → List Char → Prop
  | [], text => Balanced text
  | (bracket, _) :: outer, text =>
    ∃ inner rest, text = inner ++ bracket.closing :: rest ∧ Balanced inner ∧
      ClosesBrackets outer rest

/-- The text closes everything that is open. -/
def Closes (nesting : Nesting) (text : List Char) : Prop :=
  match nesting.literal with
  | none => ClosesBrackets nesting.brackets text
  | some (quote, _) =>
    ∃ key rest, text = key ++ quote.char :: rest ∧ quote.char ∉ key ∧
      ClosesBrackets nesting.brackets rest

theorem scan_cons {nesting next : Nesting} {position : Nat} {c : Char}
    (h : Move position nesting c next) (rest : List Char) :
    nesting.scan position (c :: rest) = next.scan (position + c.utf8Size) rest := by
  rw [scan, step_eq_ok_iff.2 h]
  rfl

theorem scan_append {nesting next : Nesting} {position : Nat} {front : List Char}
    (h : nesting.scan position front = .ok next) (back : List Char) :
    nesting.scan position (front ++ back) = next.scan (position + byteSize front) back := by
  induction front generalizing nesting position with
  | nil =>
    cases h
    rfl
  | cons c rest ih =>
    obtain ⟨after, hstep, hrest⟩ := bind_eq_ok_iff.1 h
    rw [List.cons_append, scan_cons (step_eq_ok_iff.1 hstep), ih hrest, Text.byteSize_cons,
      Nat.add_assoc]

theorem scan_key {quote : Quote} {key : List Char} (hkey : quote.char ∉ key)
    (start position : Nat) (brackets : List (Bracket × Nat)) :
    scan ⟨some (quote, start), brackets⟩ position key = .ok ⟨some (quote, start), brackets⟩ := by
  induction key generalizing position with
  | nil => rfl
  | cons c rest ih =>
    rw [List.mem_cons, not_or] at hkey
    rw [scan_cons (.inLiteral (fun h => hkey.1 h.symm))]
    exact ih hkey.2 _

/-- A balanced text leaves open what was open before it. -/
theorem scan_balanced {text : List Char} (h : Balanced text) (brackets : List (Bracket × Nat))
    (position : Nat) : scan ⟨none, brackets⟩ position text = .ok ⟨none, brackets⟩ := by
  induction h generalizing brackets position with
  | nil => rfl
  | plain hc _ ih =>
    rw [scan_cons (.plain hc)]
    exact ih brackets _
  | literal quote hkey _ ih =>
    rw [List.cons_append, scan_cons (.openLiteral quote), scan_append (scan_key hkey _ _ _),
      scan_cons (.closeLiteral quote)]
    exact ih brackets _
  | bracketed bracket _ _ ihinner ihrest =>
    rw [List.cons_append, scan_cons (.openBracket bracket), scan_append (ihinner _ _),
      scan_cons (.closeBracket bracket)]
    exact ihrest brackets _

/-- Both characters of an operator are plain. -/
theorem scan_symbol (op : Operator) (position : Nat) (rest : List Char) :
    top.scan position (op.symbol.toList ++ rest) = top.scan (position + 2) rest := by
  have hsymbol : top.scan position op.symbol.toList = .ok top :=
    scan_balanced op.balanced_symbol [] position
  rw [scan_append hsymbol]
  cases op <;> rfl

theorem ClosesBrackets.prepend {brackets : List (Bracket × Nat)} {front back : List Char}
    (hfront : Balanced front) (h : ClosesBrackets brackets back) :
    ClosesBrackets brackets (front ++ back) := by
  cases brackets with
  | nil => exact hfront.append h
  | cons opened outer =>
    obtain ⟨inner, rest, rfl, hinner, hrest⟩ := h
    exact ⟨front ++ inner, rest, by rw [List.append_assoc], hfront.append hinner, hrest⟩

/-- One step back along a scan. -/
theorem Closes.cons {nesting next : Nesting} {position : Nat} {c : Char} {rest : List Char}
    (hmove : Move position nesting c next) (h : next.Closes rest) : nesting.Closes (c :: rest) := by
  cases hmove with
  | @inLiteral quote start brackets c hc =>
    obtain ⟨key, after, rfl, hkey, hafter⟩ := h
    refine ⟨c :: key, after, rfl, ?_, hafter⟩
    rw [List.mem_cons, not_or]
    exact ⟨fun heq => hc heq.symm, hkey⟩
  | closeLiteral quote => exact ⟨[], rest, rfl, List.not_mem_nil, h⟩
  | plain hc => exact ClosesBrackets.prepend (.plain hc .nil) h
  | openLiteral quote =>
    obtain ⟨key, after, rfl, hkey, hafter⟩ := h
    have hliteral : Balanced (quote.char :: key ++ [quote.char]) := .literal quote hkey .nil
    have hwhole := ClosesBrackets.prepend hliteral hafter
    rwa [List.append_assoc] at hwhole
  | openBracket bracket =>
    obtain ⟨inner, after, rfl, hinner, hafter⟩ := h
    have hwhole := ClosesBrackets.prepend (hinner.enclosed bracket) hafter
    rwa [List.append_assoc] at hwhole
  | closeBracket bracket => exact ⟨[], rest, rfl, .nil, h⟩

theorem scan_closesBrackets {brackets : List (Bracket × Nat)} {text : List Char}
    (h : ClosesBrackets brackets text) (position : Nat) :
    scan ⟨none, brackets⟩ position text = .ok .top := by
  induction brackets generalizing text position with
  | nil => exact scan_balanced h [] position
  | cons opened outer ih =>
    obtain ⟨inner, rest, rfl, hinner, hrest⟩ := h
    rw [scan_append (scan_balanced hinner _ _), scan_cons (.closeBracket opened.1)]
    exact ih hrest _

theorem scan_eq_top_iff {nesting : Nesting} {position : Nat} {text : List Char} :
    nesting.scan position text = .ok .top ↔ nesting.Closes text := by
  constructor
  · intro h
    induction text generalizing nesting position with
    | nil =>
      cases h
      exact Balanced.nil
    | cons c rest ih =>
      obtain ⟨next, hstep, hrest⟩ := bind_eq_ok_iff.1 h
      exact .cons (step_eq_ok_iff.1 hstep) (ih hrest)
  · intro h
    obtain ⟨literal, brackets⟩ := nesting
    cases literal with
    | none => exact scan_closesBrackets h position
    | some opened =>
      obtain ⟨key, rest, rfl, hkey, hrest⟩ := h
      rw [scan_append (scan_key hkey _ _ _), scan_cons (.closeLiteral opened.1)]
      exact scan_closesBrackets hrest _

end Nesting

theorem balanced_iff_scan {text : List Char} (position : Nat) :
    Balanced text ↔ Nesting.top.scan position text = .ok .top := by
  rw [Nesting.scan_eq_top_iff]
  rfl

namespace Pieces

/-- Cutting fails where the scan fails or leaves something open, and nowhere else. -/
theorem map_cut (nesting : Nesting) (position : Nat) (text : List Char) :
    (cut nesting position text).map (fun _ => ()) =
      nesting.scan position text >>= Nesting.finish := by
  induction nesting, position, text using cut.induct with
  | case1 nesting position =>
    rw [cut, Nesting.scan]
    change Except.map _ (nesting.finish >>= fun _ => _) = nesting.finish
    cases nesting.finish <;> rfl
  | case2 nesting position c =>
    rw [cut, Nesting.scan]
    cases nesting.step c position with
    | error error => rfl
    | ok next =>
      change Except.map _ (next.finish >>= fun _ => _) = next.finish
      cases next.finish <;> rfl
  | case3 nesting position c d rest operator hpair ih =>
    rw [cut, hpair]
    split at hpair
    · next htop =>
      have hnesting := Nesting.isTop_iff.1 htop
      subst hnesting
      have hopen := Nesting.scan_symbol operator position rest
      rw [Operator.ofPair?_eq_some.1 hpair] at hopen
      rw [show c :: d :: rest = [c, d] ++ rest from rfl, hopen, ← ih]
      cases cut .top (position + 2) rest <;> rfl
    · cases hpair
  | case4 nesting position c d rest hpair ih =>
    rw [cut, hpair, Nesting.scan]
    cases nesting.step c position with
    | error error => rfl
    | ok next =>
      have htail := ih next
      change Except.map _ (cut next _ (d :: rest) >>= fun pieces => _) =
        next.scan _ (d :: rest) >>= Nesting.finish
      rw [← htail]
      cases cut next (position + c.utf8Size) (d :: rest) <;> rfl

theorem ofText_eq_error_iff {text : List Char} {fault : ScanError} :
    ofText text = .error fault ↔ Nesting.top.scan 0 text >>= Nesting.finish = .error fault := by
  rw [← map_cut, map_eq_error_iff, ofText]

theorem exists_cut_iff {text : List Char} :
    (∃ pieces, Cut .top 0 text pieces) ↔ Balanced text := by
  rw [balanced_iff_scan 0]
  have hmap := map_cut .top 0 text
  constructor
  · rintro ⟨pieces, hcut⟩
    rw [cut_eq_ok_iff.2 hcut] at hmap
    obtain ⟨nesting, hopen, hfinish⟩ := bind_eq_ok_iff.1 hmap.symm
    rw [hopen, Nesting.finish_eq_ok_iff.1 hfinish]
  · intro hopen
    rw [hopen] at hmap
    obtain ⟨pieces, hcut, -⟩ := map_eq_ok_iff.1 hmap
    exact ⟨pieces, cut_eq_ok_iff.1 hcut⟩

theorem exists_ofText_iff {text : List Char} :
    (∃ pieces, ofText text = .ok pieces) ↔ Balanced text := by
  rw [← exists_cut_iff]
  simp only [ofText_eq_ok_iff 0]

/-- The stretches between the operators, blanks included. -/
def stretches : Pieces → List (List Char)
  | last piece => [piece]
  | before piece _ rest => piece :: rest.stretches

/-- The first piece closes what is open where the cutting starts, and the others are
balanced. -/
theorem Cut.closes {nesting : Nesting} {position : Nat} {text : List Char} {pieces : Pieces}
    (h : Cut nesting position text pieces) :
    ∃ first others, pieces.stretches = first :: others ∧ nesting.Closes first ∧
      ∀ other ∈ others, Balanced other := by
  induction h with
  | done => exact ⟨[], [], rfl, Balanced.nil, by simp⟩
  | operator _ _ ih =>
    obtain ⟨first, others, hstretches, hfirst, hothers⟩ := ih
    refine ⟨[], first :: others, by rw [stretches, hstretches], Balanced.nil, ?_⟩
    exact List.forall_mem_cons.2 ⟨hfirst, hothers⟩
  | @char nesting next position c rest pieces _ hmove _ ih =>
    obtain ⟨first, others, hstretches, hfirst, hothers⟩ := ih
    refine ⟨c :: first, others, ?_, .cons hmove hfirst, hothers⟩
    cases pieces <;> simp_all [stretches, cons]

theorem balanced_of_mem_stretches {text piece : List Char} {pieces : Pieces}
    (h : ofText text = .ok pieces) (hpiece : piece ∈ pieces.stretches) : Balanced piece := by
  obtain ⟨first, others, hstretches, hfirst, hothers⟩ := ((ofText_eq_ok_iff 0).1 h).closes
  rw [hstretches] at hpiece
  rcases List.mem_cons.1 hpiece with rfl | hpiece
  · exact hfirst
  · exact hothers piece hpiece

end Pieces

/-- Blanks around a text have no part in its balance. -/
theorem balanced_trim_iff {text : List Char} : Balanced (Text.trim text) ↔ Balanced text := by
  refine ⟨.of_trim, ?_⟩
  intro h
  obtain ⟨pieces, hcut⟩ := Pieces.exists_cut_iff.2 h
  obtain ⟨_, _, inner, -, -, hinner, -⟩ := hcut.trim
  exact Pieces.exists_cut_iff.1 ⟨inner, hinner⟩

theorem Balanced.of_plain_cons {c : Char} {rest : List Char} (h : Balanced (c :: rest))
    (hc : Mark.ofChar c = .plain) : Balanced rest := by
  rw [balanced_iff_scan 0, Nesting.top, Nesting.scan_cons (.plain hc)] at h
  exact (balanced_iff_scan _).2 h

theorem balanced_of_group? {text inner : List Char} (h : group? text = some inner) :
    Balanced inner := by
  have htext := eq_of_group? h
  have hbalanced : Balanced text := Pieces.exists_cut_iff.1 ⟨_, Pieces.cut_of_group? h⟩
  -- The text after the first parenthesis closes it, and nothing follows where it is closed.
  have hopening : Nesting.Move 0 .top '(' ⟨none, [(.round, 0)]⟩ := .openBracket .round
  rw [htext, balanced_iff_scan 0, List.cons_append, Nesting.scan_cons hopening,
    Nesting.scan_eq_top_iff] at hbalanced
  obtain ⟨front, rest, hsplit, hfront, -⟩ := hbalanced
  have hinside := hfront.inside (List.cons_ne_nil (Bracket.round, 0) []) 1
  have hgroup : group? text = Option.map (front ++ ·) (if rest.isEmpty then some [] else none) := by
    rw [htext, List.cons_append, hsplit, group?, Nesting.inner?_append hinside rfl]
    simp [Nesting.inner?, Nesting.step, Mark.ofChar, Nesting.close, Nesting.isTop, Bracket.closing]
  rw [h] at hgroup
  split at hgroup
  · rw [Option.map_some, List.append_nil, Option.some.injEq] at hgroup
    exact hgroup ▸ hfront
  · cases hgroup

/-- Parentheses wrap a text exactly where they enclose a balanced one. -/
theorem group?_eq_some_iff {text inner : List Char} :
    group? text = some inner ↔ text = '(' :: inner ++ [')'] ∧ Balanced inner := by
  constructor
  · intro h
    exact ⟨eq_of_group? h, balanced_of_group? h⟩
  · rintro ⟨rfl, hinner⟩
    exact group?_of_balanced hinner

theorem group?_eq_none_iff {text : List Char} :
    group? text = none ↔ ∀ inner, text = '(' :: inner ++ [')'] → ¬Balanced inner := by
  rw [Option.eq_none_iff_forall_ne_some]
  apply forall_congr'
  intro inner
  rw [Ne, group?_eq_some_iff, not_and]

theorem tokenize_eq_ok_iff {text : List Char} {tokens : List Token} :
    tokenize text = .ok tokens ↔
      ∃ pieces, Pieces.ofText text = .ok pieces ∧ tokens = pieces.tokens 0 := by
  rw [tokenize, bind_eq_ok_iff]
  apply exists_congr
  intro pieces
  apply and_congr_right
  intro _
  constructor
  · intro h
    exact (Except.ok.inj h).symm
  · rintro rfl
    rfl

theorem exists_tokenize_iff {text : List Char} :
    (∃ tokens, tokenize text = .ok tokens) ↔ Balanced text := by
  rw [← Pieces.exists_ofText_iff]
  constructor
  · rintro ⟨tokens, htokens⟩
    obtain ⟨pieces, hpieces, -⟩ := tokenize_eq_ok_iff.1 htokens
    exact ⟨pieces, hpieces⟩
  · rintro ⟨pieces, hpieces⟩
    exact ⟨_, tokenize_eq_ok_iff.2 ⟨pieces, hpieces, rfl⟩⟩

/-- A text is taken for wrapped exactly where one pair of parentheses encloses a balanced text.
Every other text is refused, whether its literals and brackets pair up or not. So what is inside
a wrapped text can be split into tokens. -/
theorem group?_recognises (text : List Char) :
    (∀ inner, group? text = some inner ↔ text = '(' :: inner ++ [')'] ∧ Balanced inner) ∧
    (group? text = none ↔ ∀ inner, text = '(' :: inner ++ [')'] → ¬Balanced inner) ∧
    ∀ inner, group? text = some inner → ∃ tokens, tokenize inner = .ok tokens := by
  refine ⟨fun _ => group?_eq_some_iff, group?_eq_none_iff, ?_⟩
  intro inner h
  apply exists_tokenize_iff.2
  exact (group?_eq_some_iff.1 h).2

/-- A parenthesis in a literal does not end the pair, and neither do further groups inside. Two
adjacent groups begin and end with parentheses too, and what is between these is not balanced. -/
theorem group?_recognises_mixed_nesting :
    let inner := "[a, ')'](b) && \"(\"".toList
    group? ('(' :: inner ++ [')']) = some inner ∧ Balanced inner ∧
      (∃ tokens, tokenize inner = .ok tokens) ∧
      group? "(a)(b)".toList = none ∧ "(a)(b)".toList = '(' :: "a)(b".toList ++ [')'] ∧
      ¬Balanced "a)(b".toList := by
  intro inner
  have hwrapped : group? ('(' :: inner ++ [')']) = some inner := by decide +kernel
  have hadjacent : group? "(a)(b)".toList = none := by decide +kernel
  have hends : "(a)(b)".toList = '(' :: "a)(b".toList ++ [')'] := by decide +kernel
  obtain ⟨hsome, -, htokens⟩ := group?_recognises ('(' :: inner ++ [')'])
  obtain ⟨-, hnone, -⟩ := group?_recognises "(a)(b)".toList
  exact ⟨hwrapped, ((hsome inner).1 hwrapped).2, htokens inner hwrapped, hadjacent, hends,
    hnone.1 hadjacent _ hends⟩

/-- A text that is cut nowhere is a single token. -/
theorem tokenize_of_cut_last {text : List Char} (hcut : Pieces.Cut .top 0 text (.last text))
    (hblank : isAllBlank text = false) :
    tokenize text = .ok [.operand (Text.Span.whole text).trim] := by
  refine tokenize_eq_ok_iff.2 ⟨_, (Pieces.ofText_eq_ok_iff 0).2 hcut, ?_⟩
  rw [Pieces.tokens, Token.ofSpan_of_nonblank hblank]
  rfl

theorem tokenize_eq_error_iff {text : List Char} {error : ScanError} :
    tokenize text = .error error ↔ Pieces.ofText text = .error error := by
  rw [tokenize]
  cases Pieces.ofText text with
  | error fault => simp [bind, Except.bind]
  | ok pieces => simp [bind, Except.bind, pure, Except.pure]

end TagRules

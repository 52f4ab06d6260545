import Mathlib.Data.List.TakeWhile
import TagRules.Proofs.Calls
import TagRules.Proofs.Refusals

/-!
Where a rule text breaks the grammar. Every reader stops at a place of the span that it reads:
behind the place stands what the error names, and the text before it can still be completed to
one of the kind that is read. A reader that hands on a part of its span keeps both, since what
it puts around the part can be put around the completed part.
-/

namespace TagRules

open Text (isAllBlank byteSize)
open Outcomes (bind_eq_error_iff mapError_eq_ok_iff mapError_eq_error_iff)

/-- A test that can complete a text wherever an operand is wanting. -/
def filler : List Char :=
  Atom.text (.has "")

namespace GrammarError

def position : GrammarError → Nat
  | unknownAtom _ position | expectedString _ position | expectedArray _ position => position
  | missingOperand _ position | expectedExpression position => position

/-- What the error says of the text before its position and of the text behind it. A test that
is refused, or an operator, is read there; an expression is wanting after `(` or `!`. -/
def Names (front rest : List Char) : GrammarError → Prop
  | unknownAtom text _ | expectedString text _ | expectedArray text _ =>
    text <+: rest ∧ text ≠ [] ∧ Text.Trimmed text
  | missingOperand operator _ => operator.symbol.toList <+: rest
  | expectedExpression _ => ∃ before opener blanks, front = before ++ opener :: blanks ∧
      isAllBlank blanks = true ∧ (opener = '(' ∨ opener = '!')

variable {fault : GrammarError} {accepts accepts' : List Char → Prop} {span : Text.Span}

theorem Names.widen {front rest : List Char} (h : fault.Names front rest)
    (before after : List Char) : fault.Names (before ++ front) (rest ++ after) := by
  cases fault with
  | unknownAtom text _ | expectedString text _ | expectedArray text _ =>
    exact ⟨h.1.trans (List.prefix_append _ _), h.2⟩
  | missingOperand operator _ => exact h.trans (List.prefix_append _ _)
  | expectedExpression _ =>
    obtain ⟨front', opener, blanks, rfl, hblanks, hopener⟩ := h
    exact ⟨before ++ front', opener, blanks, by simp, hblanks, hopener⟩

/-- The error is about a place of the span. It names what stands there, and the text before the
place is the beginning of an accepted one, which need not be longer than the text of the span
by more than the filler. -/
def StopsAt (accepts : List Char → Prop) (span : Text.Span) (fault : GrammarError) : Prop :=
  ∃ front rest continuation, span.text = front ++ rest ∧
    span.start + byteSize front = fault.position ∧ fault.Names front rest ∧
    accepts (front ++ continuation) ∧ byteSize continuation ≤ byteSize rest + byteSize filler

/-- A place of a part is a place of the whole, where what stands around the part can be put
around any text that is accepted in its stead. -/
theorem StopsAt.widen {inner : List Char} (before after closing : List Char)
    (h : fault.StopsAt accepts ⟨inner, span.start + byteSize before⟩)
    (htext : span.text = before ++ inner ++ after) (hclosing : byteSize closing ≤ byteSize after)
    (haccepts : ∀ text, accepts text → accepts' (before ++ text ++ closing)) :
    fault.StopsAt accepts' span := by
  obtain ⟨front, rest, continuation, hinner, hposition, hnames, hcontinued, hsize⟩ := h
  simp only [] at hinner hposition
  refine ⟨before ++ front, rest ++ after, continuation ++ closing, ?_, ?_, hnames.widen _ _, ?_, ?_⟩
  · simp [htext, hinner]
  · rw [Text.byteSize_append]
    omega
  · have hwhole := haccepts _ hcontinued
    simpa using hwhole
  · rw [Text.byteSize_append, Text.byteSize_append]
    omega

theorem StopsAt.mono (h : fault.StopsAt accepts span)
    (haccepts : ∀ text, accepts text → accepts' text) : fault.StopsAt accepts' span := by
  obtain ⟨front, rest, continuation, htext, hposition, hnames, hcontinued, hsize⟩ := h
  exact ⟨front, rest, continuation, htext, hposition, hnames, haccepts _ hcontinued, hsize⟩

/-- Where nothing but blanks follows `(` or `!`, an expression is wanting behind the blanks. -/
theorem stopsAt_wanting {before blanks after : List Char} {opener : Char} (closing : List Char)
    (htext : span.text = before ++ [opener] ++ blanks ++ after)
    (hblanks : isAllBlank blanks = true) (hopener : opener = '(' ∨ opener = '!')
    (hclosing : byteSize closing ≤ byteSize after)
    (haccepts : accepts (before ++ [opener] ++ (blanks ++ filler) ++ closing)) :
    (expectedExpression (span.start + byteSize (before ++ [opener] ++ blanks))).StopsAt
      accepts span := by
  refine ⟨before ++ [opener] ++ blanks, after, filler ++ closing, htext, rfl,
    ⟨before, opener, blanks, by simp, hblanks, hopener⟩, by simpa using haccepts, ?_⟩
  rw [Text.byteSize_append]
  omega

end GrammarError

/-- The grammar derives the text, with no deeper nesting than the bound. -/
def Writable (nonterminal : Nonterminal) (bound : Nat) (text : List Char) : Prop :=
  ∃ tree tests depth, depth ≤ bound ∧ Derives nonterminal ⟨text, tree, tests, depth⟩

namespace Writable

variable {nonterminal : Nonterminal} {bound : Nat} {text before after : List Char}

theorem filler (bound : Nat) : Writable .operand bound filler :=
  ⟨_, _, 0, Nat.zero_le bound, .test (rfl : Atom.parse TagRules.filler = .ok (.has ""))⟩

theorem padded (hbefore : isAllBlank before = true) (hafter : isAllBlank after = true)
    (h : Writable nonterminal bound text) :
    Writable nonterminal bound (before ++ text ++ after) := by
  obtain ⟨tree, tests, depth, hdepth, hderives⟩ := h
  exact ⟨tree, tests, depth, hdepth, hderives.padded hbefore hafter⟩

theorem blank_append (hbefore : isAllBlank before = true) (h : Writable nonterminal bound text) :
    Writable nonterminal bound (before ++ text) := by
  have hpadded := h.padded hbefore Text.isAllBlank_nil
  rwa [List.append_nil] at hpadded

theorem negated (h : Writable .operand bound text) :
    Writable .operand (bound + 1) ('!' :: text) := by
  obtain ⟨tree, tests, depth, hdepth, hderives⟩ := h
  exact ⟨_, _, depth + 1, by omega, hderives.negated⟩

theorem enclosed (h : Writable .chain bound text) :
    Writable .operand (bound + 1) ('(' :: text ++ [')']) := by
  obtain ⟨tree, tests, depth, hdepth, hderives⟩ := h
  exact ⟨_, _, depth + 1, by omega, hderives.enclosed⟩

theorem chain (h : Writable .operand bound text) : Writable .chain bound text := by
  obtain ⟨tree, tests, depth, hdepth, hderives⟩ := h
  exact ⟨tree, tests, depth, hdepth, .conjunct (.operand hderives)⟩

end Writable

/-- The text consists of operands with operators between them. -/
def Pieces.Complete (bound : Nat) (text : List Char) : Prop :=
  ∃ (pieces : Pieces) (first : List Expr) (others : List (List Expr)),
    pieces.text = text ∧ pieces.Reads (DerivedOperand bound) first others

namespace Pieces

variable {bound : Nat} {text back : List Char}

theorem Complete.of_operand (h : Writable .operand bound text) : Complete bound text := by
  obtain ⟨tree, hderived⟩ := h
  exact ⟨.last text, [tree], [], rfl, .last hderived⟩

theorem Complete.before {tree : Expr} (htext : DerivedOperand bound text tree) (op : Operator)
    (h : Complete bound back) : Complete bound (text ++ op.symbol.toList ++ back) := by
  obtain ⟨pieces, first, others, rfl, hreads⟩ := h
  cases op with
  | and => exact ⟨.before text .and pieces, _, _, rfl, .and htext hreads⟩
  | or => exact ⟨.before text .or pieces, _, _, rfl, .or htext hreads⟩

theorem Complete.writable (h : Complete bound text) : Writable .chain bound text := by
  obtain ⟨pieces, first, others, rfl, hreads⟩ := h
  obtain ⟨tests, depth, hdepth, hderives⟩ := hreads.derives
  exact ⟨_, tests, depth, hdepth, hderives⟩

end Pieces

/-- Wherever the reader finds a fault of the grammar in a text that is not blank, the text
before it could have been completed. -/
def Reader.Stops (nonterminal : Nonterminal) (bound : Nat) (reader : Reader) : Prop :=
  ∀ span fault, isAllBlank span.text = false → reader span = .error (.grammar fault) →
    fault.StopsAt (Writable nonterminal bound) span

namespace Pieces

variable {bound start : Nat} {text : List Char} {op : Operator} {rest : Pieces}
  {fault : GrammarError}

/-- An operator is at fault where the text before it can be completed as it stands. -/
theorem stopsAt_operator {continuation : List Char}
    (hcomplete : Complete bound (text ++ continuation))
    (hsize : byteSize continuation ≤ byteSize filler) :
    (GrammarError.missingOperand op (start + byteSize text)).StopsAt (Complete bound)
      ⟨(before text op rest).text, start⟩ := by
  refine ⟨text, op.symbol.toList ++ rest.text, continuation, by simp [Pieces.text], rfl,
    List.prefix_append _ _, hcomplete, ?_⟩
  omega

theorem stopsAt_of_first (h : fault.StopsAt (Writable .operand bound) ⟨text, start⟩) :
    fault.StopsAt (Complete bound) ⟨(before text op rest).text, start⟩ := by
  refine h.widen [] (op.symbol.toList ++ rest.text) [] (by simp [Pieces.text]) (Nat.zero_le _) ?_
  intro first hfirst
  simpa using Complete.of_operand hfirst

theorem stopsAt_of_rest {tree : Expr} (hderived : DerivedOperand bound text tree)
    (h : fault.StopsAt (Complete bound) ⟨rest.text, start + byteSize text + 2⟩) :
    fault.StopsAt (Complete bound) ⟨(before text op rest).text, start⟩ := by
  have hstart : start + byteSize text + 2 = start + byteSize (text ++ op.symbol.toList) := by
    rw [op.byteSize_append_symbol, Nat.add_assoc]
  rw [hstart] at h
  refine h.widen (text ++ op.symbol.toList) [] [] (by simp [Pieces.text]) (Nat.le_refl _) ?_
  intro back hback
  simpa using Complete.before hderived op hback

/-- The pieces of a chain are read from left to right, so the pieces before the one with the
fault are operands. At the end of the chain the operator before a blank piece is the one at
fault, which is the first alternative. -/
theorem stopsAt_of_operands {operand : Reader}
    (hreads : ∀ span tree, operand span = .ok tree → DerivedOperand bound span.text tree)
    (hstops : operand.Stops .operand bound) {pieces : Pieces} {before : Option (Operator × Nat)}
    (hblank : before = none → isAllBlank pieces.text = false)
    (h : pieces.operands operand before start = .error (.grammar fault)) :
    (∃ op position, before = some (op, position) ∧ fault = .missingOperand op position) ∨
      fault.StopsAt (Complete bound) ⟨pieces.text, start⟩ := by
  induction pieces generalizing before start with
  | last text =>
    unfold operands at h
    split at h
    · next hall =>
      cases before with
      | none =>
        have hsome := hblank rfl
        rw [Pieces.text, hall] at hsome
        cases hsome
      | some opened =>
        cases h
        exact Or.inl ⟨opened.1, opened.2, rfl, rfl⟩
    · next hall =>
      rcases bind_eq_error_iff.1 h with hoperand | ⟨tree, -, hresult⟩
      · have hstop := hstops _ _ (by simpa using hall) hoperand
        exact Or.inr (hstop.mono (fun _ => .of_operand))
      · cases hresult
  | before text op rest ih =>
    right
    unfold operands at h
    simp only [] at h
    split at h
    · next hall =>
      cases h
      exact stopsAt_operator (.of_operand ((Writable.filler bound).blank_append hall))
        (Nat.le_refl _)
    · next hall =>
      rcases bind_eq_error_iff.1 h with hoperand | ⟨tree, htree, hafter⟩
      · exact stopsAt_of_first (hstops _ _ (by simpa using hall) hoperand)
      have hderived := hreads _ _ htree
      rcases bind_eq_error_iff.1 hafter with hrest | ⟨_, -, hresult⟩
      · rcases ih (by simp) hrest with ⟨other, position, hother, rfl⟩ | hstop
        · -- nothing follows the operator, and the operand before it is a chain of its own
          cases hother
          have hcomplete : Complete bound (text ++ []) := by
            rw [List.append_nil]
            exact .of_operand ⟨tree, hderived⟩
          exact stopsAt_operator hcomplete (Nat.zero_le _)
        · exact stopsAt_of_rest hderived hstop
      · cases op <;> cases hresult

end Pieces

namespace Reader

variable {less bound : Nat} {span : Text.Span} {fault : GrammarError} {inner operand : Reader}

theorem chain_of_blank (h : isAllBlank span.text = true)
    (hread : chain inner operand span = .error (.grammar fault)) :
    fault = .expectedExpression span.stop := by
  have htrim : span.trim.text = [] := Text.isAllBlank_iff_trim.1 h
  have hstop : span.trim.start = span.stop := by
    have hall : span.text.takeWhile Text.isBlank = span.text :=
      List.takeWhile_eq_self_iff.2 (Text.isAllBlank_iff.1 h)
    rw [Text.Span.trim, Text.Span.stop, hall]
  have hanswer : chain inner operand span =
      .error (.grammar (.expectedExpression span.trim.start)) := by
    unfold chain
    simp only [htrim]
    rfl
  rw [hanswer, hstop] at hread
  cases hread
  rfl

/-- An operand in parentheses stops where the text between them does. -/
theorem stopsAt_of_group {text : List Char} (hgroup : group? (Text.trim span.text) = some text)
    (hblank : isAllBlank text = true →
      fault = .expectedExpression (span.trim.start + 1 + byteSize text))
    (hstops : isAllBlank text = false →
      fault.StopsAt (Writable .chain less) ⟨text, span.trim.start + 1⟩) :
    fault.StopsAt (Writable .operand (less + 1)) span := by
  obtain ⟨before, after, hbefore, hafter, htext, hstart⟩ := span.exists_trim
  have htrim : span.trim.text = '(' :: text ++ [')'] := eq_of_group? hgroup
  have hclosing : byteSize [')'] ≤ byteSize ([')'] ++ after) := by simp
  have hwritable : ∀ inner, Writable .chain less inner →
      Writable .operand (less + 1) (before ++ ['('] ++ inner ++ [')']) := by
    intro inner hinner
    simpa using hinner.enclosed.blank_append hbefore
  have hposition : span.trim.start + 1 = span.start + byteSize (before ++ ['(']) := by
    rw [hstart, Text.byteSize_append, Nat.add_assoc]
    rfl
  rw [htrim] at htext
  cases hall : isAllBlank text with
  | true =>
    rw [hblank hall, hposition, Nat.add_assoc, ← Text.byteSize_append]
    have hfilled : Writable .chain less (text ++ filler) :=
      ((Writable.filler less).blank_append hall).chain
    exact GrammarError.stopsAt_wanting [')'] (by simp [htext]) hall (Or.inl rfl) hclosing
      (hwritable _ hfilled)
  | false =>
    have hstop := hstops hall
    rw [hposition] at hstop
    exact hstop.widen (before ++ ['(']) ([')'] ++ after) [')'] (by simp [htext]) hclosing hwritable

/-- An operand behind `!` stops where the text behind it does. -/
theorem stopsAt_of_negated {rest : List Char} (htrim : Text.trim span.text = '!' :: rest)
    (hoperand : operand.Stops .operand less)
    (hread : Reader.negated operand ⟨rest, span.trim.start + 1⟩ = .error (.grammar fault)) :
    fault.StopsAt (Writable .operand (less + 1)) span := by
  obtain ⟨before, after, hbefore, hafter, htext, hstart⟩ := span.exists_trim
  have hcore : span.trim.text = '!' :: rest := htrim
  have hwritable : ∀ inner, Writable .operand less inner →
      Writable .operand (less + 1) (before ++ ['!'] ++ inner ++ []) := by
    intro inner hinner
    simpa using hinner.negated.blank_append hbefore
  have hposition : span.trim.start + 1 = span.start + byteSize (before ++ ['!']) := by
    rw [hstart, Text.byteSize_append, Nat.add_assoc]
    rfl
  rw [hcore] at htext
  unfold Reader.negated at hread
  split at hread
  · cases hread
    simp only [hposition]
    have hwanting := GrammarError.stopsAt_wanting [] (by simpa using htext) Text.isAllBlank_nil
      (Or.inr rfl) (Nat.zero_le _) (hwritable _ (.filler less))
    simpa using hwanting
  · next hall =>
    rcases bind_eq_error_iff.1 hread with herror | ⟨tree, -, hresult⟩
    · have hstop := hoperand _ _ (by simpa using hall) herror
      rw [hposition] at hstop
      exact hstop.widen (before ++ ['!']) after [] (by simp [htext]) (Nat.zero_le _) hwritable
    · cases hresult

/-- A text that is no test stops where it begins. -/
theorem stopsAt_of_test (hnonblank : isAllBlank span.text = false)
    (hread : Atom.ofTrimmed span.trim = .error fault) :
    fault.StopsAt (Writable .operand bound) span := by
  obtain ⟨before, after, hbefore, hafter, htext, hstart⟩ := span.exists_trim
  have hne : span.trim.text ≠ [] := by
    intro hempty
    rw [Text.isAllBlank_iff_trim.2 hempty] at hnonblank
    cases hnonblank
  have hthere : span.trim.text <+: span.trim.text ++ after ∧ span.trim.text ≠ [] ∧
      Text.Trimmed span.trim.text :=
    ⟨List.prefix_append _ _, hne, Text.trimmed_trim span.text⟩
  have hstop : ∀ error : GrammarError, error.position = span.trim.start →
      error.Names before (span.trim.text ++ after) →
        error.StopsAt (Writable .operand bound) span := by
    intro error hposition hnames
    exact ⟨before, span.trim.text ++ after, filler, by simpa using htext,
      hstart.symm.trans hposition.symm, hnames, (Writable.filler bound).blank_append hbefore,
      by omega⟩
  cases Atom.refuses_of_ofTrimmed hread with
  | unknownAtom _ => exact hstop _ rfl hthere
  | expectedString _ => exact hstop _ rfl hthere
  | expectedArray _ _ => exact hstop _ rfl hthere

theorem operand_stops {negated inner : Reader}
    (hnegated : ∀ span rest fault, Text.trim span.text = '!' :: rest →
      negated ⟨rest, span.trim.start + 1⟩ = .error (.grammar fault) →
        fault.StopsAt (Writable .operand bound) span)
    (hinner : ∀ span text fault, group? (Text.trim span.text) = some text →
      inner ⟨text, span.trim.start + 1⟩ = .error (.grammar fault) →
        fault.StopsAt (Writable .operand bound) span) :
    (Reader.operand negated inner).Stops .operand bound := by
  intro span fault hnonblank hread
  have htext : span.trim.text = Text.trim span.text := rfl
  unfold Reader.operand at hread
  simp only [htext] at hread
  split at hread
  · next rest hrest => exact hnegated span rest fault hrest hread
  · split at hread
    · next text hgroup => exact hinner span text fault hgroup hread
    · rcases bind_eq_error_iff.1 hread with htest | ⟨test, -, hresult⟩
      · obtain ⟨found, hfound, hfault⟩ := mapError_eq_error_iff.1 htest
        cases hfault
        exact stopsAt_of_test hnonblank hfound
      · cases hresult

theorem chain_stops {inner operand : Reader}
    (hinner : ∀ span text fault, group? (Text.trim span.text) = some text →
      inner ⟨text, span.trim.start + 1⟩ = .error (.grammar fault) →
        fault.StopsAt (Writable .operand bound) span)
    (hreads : ∀ span tree, operand span = .ok tree → DerivedOperand bound span.text tree)
    (hoperand : operand.Stops .operand bound) : (chain inner operand).Stops .chain bound := by
  intro span fault hnonblank hread
  have htext : span.trim.text = Text.trim span.text := rfl
  unfold chain at hread
  simp only [htext] at hread
  split at hread
  · next text hgroup => exact (hinner span text fault hgroup hread).mono (fun _ => .chain)
  · rcases bind_eq_error_iff.1 hread with hscan | ⟨pieces, hpieces, hafter⟩
    · obtain ⟨found, -, hfault⟩ := mapError_eq_error_iff.1 hscan
      cases hfault
    · rcases bind_eq_error_iff.1 hafter with hoperands | ⟨_, -, hresult⟩
      · rw [mapError_eq_ok_iff, Pieces.ofText_eq_ok_iff 0] at hpieces
        have hcore : isAllBlank pieces.text = false := by
          rw [hpieces.text_eq, Text.isAllBlank_of_trim_eq (Text.trim_trim span.text)]
          exact hnonblank
        obtain ⟨before, after, hbefore, hafter, hspan, hstart⟩ := span.exists_trim
        rcases Pieces.stopsAt_of_operands hreads hoperand (fun _ => hcore) hoperands with
          ⟨op, position, hnone, -⟩ | hstop
        · cases hnone
        · rw [hpieces.text_eq, hstart] at hstop
          refine hstop.widen before after [] hspan (Nat.zero_le _) ?_
          intro text hcomplete
          simpa using hcomplete.writable.blank_append hbefore
      · cases hresult

/-- Every reader stops at a place of its span. The induction is on the levels that are left: a
chain is read by the operands of the level below, and an operand by chains of its own level. -/
theorem stops_atLevel (maxDepth left : Nat) :
    (atLevel maxDepth (left + 1) .chain).Stops .chain left ∧
      (atLevel maxDepth left .operand).Stops .operand left := by
  have hgroup : ∀ less, (atLevel maxDepth (less + 1) .chain).Stops .chain less →
      ∀ span text fault, group? (Text.trim span.text) = some text →
        atLevel maxDepth (less + 1) .chain ⟨text, span.trim.start + 1⟩ = .error (.grammar fault) →
          fault.StopsAt (Writable .operand (less + 1)) span := by
    intro less hchain span text fault hgroup hread
    exact stopsAt_of_group hgroup (fun hblank => chain_of_blank hblank hread)
      (fun hnonblank => hchain _ _ hnonblank hread)
  induction left with
  | zero =>
    have hoperand : (atLevel maxDepth 0 .operand).Stops .operand 0 :=
      operand_stops (fun _ _ _ _ hread => by cases hread) (fun _ _ _ _ hread => by cases hread)
    exact ⟨chain_stops (fun _ _ _ _ hread => by cases hread) (sound maxDepth 0).2 hoperand,
      hoperand⟩
  | succ left ih =>
    have hoperand : (atLevel maxDepth (left + 1) .operand).Stops .operand (left + 1) :=
      operand_stops (fun _ _ _ htrim hread => stopsAt_of_negated htrim ih.2 hread)
        (hgroup left ih.1)
    exact ⟨chain_stops (hgroup left ih.1) (sound maxDepth (left + 1)).2 hoperand, hoperand⟩

end Reader

theorem Expr.stopsAt_of_parse {limits : Limits} {text : List Char} {fault : GrammarError}
    (h : parse limits text = .error (.grammar fault)) :
    fault.StopsAt (Writable .chain limits.maxDepth) (.whole text) := by
  unfold parse at h
  split at h
  · cases h
  · split at h
    · cases h
    · next hblank =>
      exact (Reader.stops_atLevel limits.maxDepth limits.maxDepth).1 _ _
        (eq_false_of_ne_true hblank) h

/-- What an error of the grammar says is to be found in the text, just where it says: the test
that is refused, without blanks around it, or the operator that has no operand. Where an
expression is wanting, the text so far ends in `(` or `!`, blanks aside. -/
theorem Rule.grammar_error_in_place {limits : Limits} {source : String} {fault : GrammarError}
    (h : parse limits source = .error (.grammar fault)) :
    ∃ front rest, source.toList = front ++ rest ∧ byteSize front = fault.position ∧
      fault.Names front rest := by
  obtain ⟨front, rest, -, htext, hposition, hnames, -⟩ :=
    Expr.stopsAt_of_parse (parse_eq_error_iff.1 h)
  refine ⟨front, rest, htext, ?_, hnames⟩
  rw [← hposition]
  exact (Nat.zero_add _).symm

/-- Behind a key and a blank of two bytes each, in a negated group. -/
theorem Rule.grammar_error_in_place_of_nested_test :
    let source := "!(scope.has('é') ||\u00a0scope.hasAny('b'))"
    let test := "scope.hasAny('b')".toList
    parse .standard source = .error (.grammar (.expectedArray test 22)) ∧
      ∃ front rest, source.toList = front ++ rest ∧ byteSize front = 22 ∧
        (test <+: rest ∧ test ≠ [] ∧ Text.Trimmed test) := by
  intro source test
  have hparse : parse .standard source = .error (.grammar (.expectedArray test 22)) := by
    decide +kernel
  exact ⟨hparse, grammar_error_in_place hparse⟩

/-- An error of the grammar is reported no later than the first mistake: up to its position the
text is the beginning of a rule. The hypothesis leaves room for one test more below the largest
bound. Every text that can be stored meets it, having at most half as many bytes. -/
theorem Rule.completable_before_fault {source : String} {fault : GrammarError}
    (hfits : byteSize source.toList + byteSize filler ≤ Limits.largest)
    (h : parse .unbounded source = .error (.grammar fault)) :
    ∃ front rest continuation, source.toList = front ++ rest ∧ byteSize front = fault.position ∧
      ∃ rule, parse .unbounded (String.ofList (front ++ continuation)) = .ok rule := by
  obtain ⟨front, rest, continuation, htext, hposition, -, hwritable, hsize⟩ :=
    Expr.stopsAt_of_parse (parse_eq_error_iff.1 h)
  obtain ⟨tree, tests, depth, hdepth, hderives⟩ := hwritable
  have hlength : byteSize (front ++ continuation) ≤ Limits.unbounded.maxLength := by
    change source.toList = front ++ rest at htext
    rw [htext, Text.byteSize_append] at hfits
    rw [Text.byteSize_append]
    exact Nat.le_trans (by omega) hfits
  have htree : Expr.parse .unbounded (front ++ continuation) = .ok tree :=
    Expr.parse_eq_ok_iff.2 ⟨hlength, tests, depth, hdepth, hderives⟩
  refine ⟨front, rest, continuation, htext, ?_, ⟨_, tree⟩, parse_eq_ok_iff.2 ⟨rfl, ?_⟩⟩
  · rw [← hposition]
    exact (Nat.zero_add _).symm
  · rwa [String.toList_ofList]

/-- The text up to the fault is completed by a test and two parentheses, whatever follows the
fault. -/
theorem Rule.completable_before_fault_of_nested_group :
    let source := "scope.has('(') && (!( scope.wat(']')) && )|| ()"
    byteSize source.toList + byteSize filler ≤ Limits.largest ∧
      parse .unbounded source = .error (.grammar (.unknownAtom "scope.wat(']')".toList 22)) ∧
      ∃ front rest continuation, source.toList = front ++ rest ∧ byteSize front = 22 ∧
        ∃ rule, parse .unbounded (String.ofList (front ++ continuation)) = .ok rule := by
  intro source
  have hfits : byteSize source.toList + byteSize filler ≤ Limits.largest := by decide +kernel
  have hparse : parse .unbounded source =
      .error (.grammar (.unknownAtom "scope.wat(']')".toList 22)) := by
    decide +kernel
  exact ⟨hfits, hparse, completable_before_fault hfits hparse⟩

end TagRules

import Mathlib.Data.List.Chain
import TagRules.Proofs.Scanning
import TagRules.Proofs.Spans

/-!
Where the tokens of a text stand. The operators are the pairs `&&` and `||` before which the text
is balanced, and of overlapping pairs the leftmost one counts. The operands are what is left
between them once blanks are trimmed away, and nothing but blanks lies outside all tokens. A
list of tokens with these properties is determined by the text.
-/

namespace TagRules

open Text (byteSize isAllBlank isBlank)

namespace Token

/-- The stretch of the text that the token is about. -/
def span : Token → Text.Span
  | operand span => span
  | operator op start => ⟨op.symbol.toList, start⟩

def isOperand : Token → Bool
  | operand _ => true
  | operator _ _ => false

end Token

/-- The operator stands at this offset and nothing is open before it. -/
def Operator.MetAt (text : List Char) (op : Operator) (start : Nat) : Prop :=
  ∃ front back, text = front ++ op.symbol.toList ++ back ∧ byteSize front = start ∧ Balanced front

/-- The tokens are what the text consists of at its top level, blanks aside. -/
structure Token.Layout (text : List Char) (tokens : List Token) : Prop where
  /-- An operator that is met counts unless it overlaps one that counts already. -/
  operators : ∀ op start, .operator op start ∈ tokens ↔
    op.MetAt text start ∧ ∀ other previous, .operator other previous ∈ tokens → previous + 1 ≠ start
  operands : ∀ span, .operand span ∈ tokens ↔
    ∃ stretch,
      Text.Span.Between (.whole text) (fun cut => ∃ op, .operator op cut ∈ tokens) stretch ∧
      isAllBlank stretch.text = false ∧ span = stretch.trim
  placed : ∀ token ∈ tokens, token.span.Within (.whole text)
  increasing : tokens.Pairwise (fun first second => first.span.start < second.span.start)
  separated : tokens.IsChain (fun first second => ¬(first.isOperand ∧ second.isOperand))
  blank_outside : ∀ c offset, Text.Span.Within ⟨[c], offset⟩ (.whole text) →
    (∀ token ∈ tokens, offset < token.span.start ∨ token.span.stop ≤ offset) → isBlank c = true

theorem Token.mem_ofSpan {token : Token} {span : Text.Span} :
    token ∈ ofSpan span ↔ isAllBlank span.text = false ∧ token = .operand span.trim := by
  cases hblank : isAllBlank span.text with
  | true =>
    have htext : span.trim.text = [] := Text.isAllBlank_iff_trim.1 hblank
    simp [ofSpan, htext]
  | false =>
    rw [ofSpan_of_nonblank hblank]
    simp

namespace Pieces

variable {pieces : Pieces} {start : Nat}

/-- The stretches between the operators, each with its offset. -/
def spans (start : Nat) : Pieces → List Text.Span
  | last text => [⟨text, start⟩]
  | before text _ rest => ⟨text, start⟩ :: rest.spans (start + byteSize text + 2)

/-- The operators between the stretches, each with its offset. -/
def operators (start : Nat) : Pieces → List (Operator × Nat)
  | last _ => []
  | before text operator rest =>
    (operator, start + byteSize text) :: rest.operators (start + byteSize text + 2)

@[simp] theorem operators_cons (c : Char) (pieces : Pieces) (start : Nat) :
    (pieces.cons c).operators start = pieces.operators (start + c.utf8Size) := by
  cases pieces <;> simp [cons, operators, Nat.add_assoc]

theorem mem_tokens_iff {token : Token} :
    token ∈ pieces.tokens start ↔
      (∃ op position, (op, position) ∈ pieces.operators start ∧ token = .operator op position) ∨
      ∃ stretch ∈ pieces.spans start, isAllBlank stretch.text = false ∧
        token = .operand stretch.trim := by
  induction pieces generalizing start with
  | last text => simp [tokens, operators, spans, Token.mem_ofSpan]
  | before text operator rest ih =>
    simp only [tokens, operators, spans, List.mem_append, List.mem_cons, Token.mem_ofSpan, ih]
    constructor
    · rintro (hfirst | rfl | ⟨op, position, hmem, rfl⟩ | ⟨stretch, hmem, hstretch⟩)
      · exact Or.inr ⟨_, Or.inl rfl, hfirst⟩
      · exact Or.inl ⟨_, _, Or.inl rfl, rfl⟩
      · exact Or.inl ⟨op, position, Or.inr hmem, rfl⟩
      · exact Or.inr ⟨stretch, Or.inr hmem, hstretch⟩
    · rintro (⟨op, position, hmem | hmem, rfl⟩ | ⟨stretch, rfl | hmem, hstretch⟩)
      · cases hmem
        exact Or.inr (Or.inl rfl)
      · exact Or.inr (Or.inr (Or.inl ⟨op, position, hmem, rfl⟩))
      · exact Or.inl hstretch
      · exact Or.inr (Or.inr (Or.inr ⟨stretch, hmem, hstretch⟩))

theorem operator_mem_tokens {position : Nat} {op : Operator} :
    .operator op position ∈ pieces.tokens start ↔ (op, position) ∈ pieces.operators start := by
  simp [mem_tokens_iff]

theorem operand_mem_tokens {span : Text.Span} :
    .operand span ∈ pieces.tokens start ↔
      ∃ stretch ∈ pieces.spans start, isAllBlank stretch.text = false ∧ span = stretch.trim := by
  simp [mem_tokens_iff]

theorem text_join (pieces : Pieces) (op : Operator) (others : Pieces) :
    (pieces.join op others).text = pieces.text ++ op.symbol.toList ++ others.text := by
  induction pieces with
  | last text => rfl
  | before text operator rest ih => simp [join, Pieces.text, ih]

theorem stretches_join (pieces : Pieces) (op : Operator) (others : Pieces) :
    (pieces.join op others).stretches = pieces.stretches ++ others.stretches := by
  induction pieces with
  | last text => rfl
  | before text operator rest ih => simp [join, stretches, ih]

theorem balanced_text (h : ∀ piece ∈ pieces.stretches, Balanced piece) : Balanced pieces.text := by
  induction pieces with
  | last text => exact h text (by simp [stretches])
  | before text operator rest ih =>
    rw [stretches, List.forall_mem_cons] at h
    exact (h.1.append operator.balanced_symbol).append (ih h.2)

/-- An operator joins what is before it to what is behind it. -/
theorem exists_join_of_mem_operators {op : Operator} {position : Nat}
    (h : (op, position) ∈ pieces.operators start) :
    ∃ front back : Pieces,
      pieces = front.join op back ∧ start + byteSize front.text = position := by
  induction pieces generalizing start with
  | last text => cases h
  | before text operator rest ih =>
    rcases List.mem_cons.1 h with hfirst | hrest
    · cases hfirst
      exact ⟨.last text, rest, rfl, rfl⟩
    · obtain ⟨front, back, rfl, hposition⟩ := ih hrest
      refine ⟨.before text operator front, back, rfl, ?_⟩
      rw [Pieces.text, Text.byteSize_append, operator.byteSize_append_symbol]
      omega

theorem operator_within {op : Operator} {position : Nat}
    (h : (op, position) ∈ pieces.operators start) :
    Text.Span.Within ⟨op.symbol.toList, position⟩ ⟨pieces.text, start⟩ := by
  obtain ⟨front, back, rfl, hposition⟩ := exists_join_of_mem_operators h
  exact ⟨front.text, back.text, text_join front op back, hposition⟩

theorem rest_within (text : List Char) (op : Operator) (rest : Pieces) (start : Nat) :
    Text.Span.Within ⟨rest.text, start + byteSize text + 2⟩
      ⟨(before text op rest).text, start⟩ := by
  refine ⟨text ++ op.symbol.toList, [], by simp [Pieces.text], ?_⟩
  rw [op.byteSize_append_symbol, Nat.add_assoc]

/-- A span that starts behind the first operator lies within the rest. -/
theorem within_rest {text : List Char} {op : Operator} {rest : Pieces} {span : Text.Span}
    (h : span.Within ⟨(before text op rest).text, start⟩)
    (hstart : start + byteSize text + 2 ≤ span.start) :
    span.Within ⟨rest.text, start + byteSize text + 2⟩ := by
  have hsize : start + byteSize text + 2 = start + byteSize (text ++ op.symbol.toList) := by
    rw [op.byteSize_append_symbol, Nat.add_assoc]
  rw [hsize] at hstart ⊢
  exact h.right hstart

theorem span_within {stretch : Text.Span} (h : stretch ∈ pieces.spans start) :
    stretch.Within ⟨pieces.text, start⟩ := by
  induction pieces generalizing start with
  | last text =>
    rw [spans, List.mem_singleton] at h
    subst h
    exact ⟨[], [], by simp [Pieces.text], rfl⟩
  | before text operator rest ih =>
    rcases List.mem_cons.1 h with rfl | hrest
    · exact ⟨[], operator.symbol.toList ++ rest.text, by simp [Pieces.text], rfl⟩
    · exact (ih hrest).trans (rest_within text operator rest start)

theorem text_mem_stretches {stretch : Text.Span} (h : stretch ∈ pieces.spans start) :
    stretch.text ∈ pieces.stretches := by
  induction pieces generalizing start with
  | last text => simp_all [spans, stretches]
  | before text operator rest ih =>
    rcases List.mem_cons.1 h with rfl | hrest
    · exact List.mem_cons_self
    · exact List.mem_cons_of_mem _ (ih hrest)

theorem token_within {token : Token} (h : token ∈ pieces.tokens start) :
    token.span.Within ⟨pieces.text, start⟩ := by
  rcases mem_tokens_iff.1 h with ⟨op, position, hmem, rfl⟩ | ⟨stretch, hmem, -, rfl⟩
  · exact operator_within hmem
  · exact stretch.trim_within.trans (span_within hmem)

theorem metAt_of_mem_operators (hbalanced : ∀ piece ∈ pieces.stretches, Balanced piece)
    {op : Operator} {position : Nat} (h : (op, position) ∈ pieces.operators 0) :
    op.MetAt pieces.text position := by
  obtain ⟨front, back, rfl, hposition⟩ := exists_join_of_mem_operators h
  rw [stretches_join] at hbalanced
  refine ⟨front.text, back.text, text_join front op back, by omega, balanced_text ?_⟩
  intro piece hpiece
  exact hbalanced piece (List.mem_append_left _ hpiece)

/-- Two operators do not overlap. -/
theorem operators_apart {op other : Operator} {position previous : Nat}
    (h : (op, position) ∈ pieces.operators start)
    (hother : (other, previous) ∈ pieces.operators start) : previous + 1 ≠ position := by
  induction pieces generalizing start with
  | last text => cases h
  | before text operator rest ih =>
    have hbehind : ∀ {op : Operator} {position : Nat},
        (op, position) ∈ rest.operators (start + byteSize text + 2) →
          start + byteSize text + 2 ≤ position := fun hmem => (operator_within hmem).start_le
    rcases List.mem_cons.1 h with hfirst | hrest
    · cases hfirst
      rcases List.mem_cons.1 hother with hfirst' | hrest'
      · cases hfirst'
        omega
      · have hle := hbehind hrest'
        omega
    · rcases List.mem_cons.1 hother with hfirst' | hrest'
      · cases hfirst'
        have hle := hbehind hrest
        omega
      · exact ih hrest hrest'

/-- Where the scan meets an operator with nothing open, the text is cut, unless it has been cut
at the character before. -/
theorem Cut.cut_where_met {nesting : Nesting} {position : Nat} {text : List Char}
    (h : Cut nesting position text pieces) {op : Operator} {front back : List Char}
    (htext : text = front ++ op.symbol.toList ++ back)
    (hopen : nesting.scan position front = .ok .top) :
    (op, position + byteSize front) ∈ pieces.operators position ∨
      ∃ other previous, (other, previous) ∈ pieces.operators position ∧
        previous + 1 = position + byteSize front := by
  rw [op.toList_symbol] at htext
  induction h generalizing front with
  | done position => simp at htext
  | @operator position c d rest other pieces hpair _ ih =>
    obtain ⟨rfl, rfl⟩ := Operator.ofPair?_eq_some_iff.1 hpair
    have hhead : (other, position) ∈ (before [] other pieces).operators position := by
      simp [operators]
    rcases front with _ | ⟨c', _ | ⟨d', front⟩⟩
    · left
      rw [Operator.char_injective (List.cons.inj htext).1.symm]
      exact hhead
    · right
      refine ⟨other, position, hhead, ?_⟩
      rw [← (List.cons.inj htext).1]
      cases other <;> rfl
    · obtain ⟨rfl, htail⟩ := List.cons.inj htext
      obtain ⟨rfl, hrest⟩ := List.cons.inj htail
      have hfront : other.char :: other.char :: front = other.symbol.toList ++ front := by
        rw [other.toList_symbol]
        rfl
      rw [hfront, Nesting.scan_symbol] at hopen
      have hposition : position + byteSize (other.char :: other.char :: front) =
          position + 2 + byteSize front := by
        rw [hfront, Text.byteSize_append, other.byteSize_symbol, Nat.add_assoc]
      rw [hposition]
      rcases ih hrest hopen with hmet | ⟨earlier, previous, hmem, hprevious⟩
      · exact Or.inl (List.mem_cons_of_mem _ hmet)
      · exact Or.inr ⟨earlier, previous, List.mem_cons_of_mem _ hmem, hprevious⟩
  | @char nesting next position c rest pieces hpair hmove _ ih =>
    cases front with
    | nil =>
      cases hopen
      cases htext
      have hnone := hpair rfl op.char rfl
      rw [Operator.ofPair?_eq_some_iff.2 ⟨rfl, rfl⟩] at hnone
      cases hnone
    | cons c' front =>
      cases htext
      rw [Nesting.scan_cons hmove] at hopen
      have hbehind := ih rfl hopen
      rwa [operators_cons, Text.byteSize_cons, ← Nat.add_assoc]

/-- The offsets at which a text is cut. -/
def Cuts (start : Nat) (pieces : Pieces) (cut : Nat) : Prop :=
  ∃ op, (op, cut) ∈ pieces.operators start

theorem Cuts.le {cut : Nat} (h : pieces.Cuts start cut) : start ≤ cut := by
  obtain ⟨op, hmem⟩ := h
  exact (operator_within hmem).start_le

theorem cuts_before {text : List Char} {op : Operator} {rest : Pieces} {cut : Nat} :
    (before text op rest).Cuts start cut ↔
      cut = start + byteSize text ∨ rest.Cuts (start + byteSize text + 2) cut := by
  simp only [Cuts, operators, List.mem_cons, Prod.mk.injEq]
  constructor
  · rintro ⟨other, ⟨-, hcut⟩ | hrest⟩
    · exact Or.inl hcut
    · exact Or.inr ⟨other, hrest⟩
  · rintro (hcut | ⟨other, hrest⟩)
    · exact ⟨op, Or.inl ⟨rfl, hcut⟩⟩
    · exact ⟨other, Or.inr hrest⟩

theorem byteSize_before (text : List Char) (op : Operator) (rest : Pieces) :
    byteSize (before text op rest).text = byteSize text + 2 + byteSize rest.text := by
  rw [Pieces.text, Text.byteSize_append, op.byteSize_append_symbol]

/-- The piece before the first operator lies between the cuts. -/
theorem between_first (text : List Char) (op : Operator) (rest : Pieces) (start : Nat) :
    Text.Span.Between ⟨(before text op rest).text, start⟩ ((before text op rest).Cuts start)
      ⟨text, start⟩ := by
  refine ⟨span_within List.mem_cons_self, Or.inl rfl, Or.inr (cuts_before.2 (Or.inl rfl)), ?_⟩
  intro cut hcut
  right
  rcases cuts_before.1 hcut with rfl | hbehind
  · exact Nat.le_refl _
  · have hle := hbehind.le
    simp only [Text.Span.stop]
    omega

theorem between_of_rest {text : List Char} {op : Operator} {rest : Pieces} {stretch : Text.Span}
    (h : Text.Span.Between ⟨rest.text, start + byteSize text + 2⟩
      (rest.Cuts (start + byteSize text + 2)) stretch) :
    Text.Span.Between ⟨(before text op rest).text, start⟩ ((before text op rest).Cuts start)
      stretch := by
  obtain ⟨hin, hleft, hright, huncut⟩ := h
  refine ⟨hin.trans (rest_within text op rest start), Or.inr ?_, ?_, ?_⟩
  · rcases hleft with hstart | ⟨cut, hcut, hstart⟩
    · exact ⟨_, cuts_before.2 (Or.inl rfl), hstart.symm⟩
    · exact ⟨cut, cuts_before.2 (Or.inr hcut), hstart⟩
  · rcases hright with hstop | hcut
    · left
      simp only [Text.Span.stop, byteSize_before] at hstop ⊢
      omega
    · exact Or.inr (cuts_before.2 (Or.inr hcut))
  · intro cut hcut
    rcases cuts_before.1 hcut with rfl | hbehind
    · exact Or.inl hin.start_le
    · exact huncut cut hbehind

/-- What lies between the cuts and ends before the first operator is the first piece. -/
theorem eq_first_of_between {text : List Char} {op : Operator} {rest : Pieces}
    {stretch : Text.Span}
    (h : Text.Span.Between ⟨(before text op rest).text, start⟩
      ((before text op rest).Cuts start) stretch)
    (hbefore : stretch.stop ≤ start + byteSize text) : stretch = ⟨text, start⟩ := by
  obtain ⟨hin, hleft, hright, -⟩ := h
  have hend : stretch.start ≤ stretch.stop := Nat.le_add_right _ _
  have hstart : stretch.start = start := by
    rcases hleft with hstart | ⟨cut, hcut, hstart⟩
    · exact hstart
    · rcases cuts_before.1 hcut with rfl | hcut
      · omega
      · have hle := hcut.le
        omega
  have hstop : stretch.stop = start + byteSize text := by
    rcases hright with hstop | hcut
    · simp only [Text.Span.stop, byteSize_before] at hstop hbefore ⊢
      omega
    · rcases cuts_before.1 hcut with hcut | hcut
      · exact hcut
      · have hle := hcut.le
        omega
  have hwhole : stretch.Within ⟨text ++ (op.symbol.toList ++ rest.text), start⟩ := by
    rw [← List.append_assoc]
    exact hin
  exact (hwhole.left hbefore).eq hstart hstop

/-- What lies between the cuts and starts behind the first operator lies between the cuts of
the rest. -/
theorem between_rest {text : List Char} {op : Operator} {rest : Pieces} {stretch : Text.Span}
    (h : Text.Span.Between ⟨(before text op rest).text, start⟩
      ((before text op rest).Cuts start) stretch)
    (hbehind : start + byteSize text + 2 ≤ stretch.start) :
    Text.Span.Between ⟨rest.text, start + byteSize text + 2⟩
      (rest.Cuts (start + byteSize text + 2)) stretch := by
  obtain ⟨hin, hleft, hright, huncut⟩ := h
  refine ⟨within_rest hin hbehind, ?_, ?_, fun cut hcut => huncut cut (cuts_before.2 (Or.inr hcut))⟩
  · rcases hleft with hstart | ⟨cut, hcut, hstart⟩
    · simp only [] at hstart
      omega
    · rcases cuts_before.1 hcut with rfl | hcut
      · exact Or.inl hstart.symm
      · exact Or.inr ⟨cut, hcut, hstart⟩
  · rcases hright with hstop | hcut
    · left
      rw [hstop]
      simp only [Text.Span.stop, byteSize_before]
      omega
    · have hend : stretch.start ≤ stretch.stop := Nat.le_add_right _ _
      rcases cuts_before.1 hcut with hcut | hcut
      · omega
      · exact Or.inr hcut

/-- The pieces are the stretches from one end or cut to the next. -/
theorem mem_spans_iff {stretch : Text.Span} :
    stretch ∈ pieces.spans start ↔
      Text.Span.Between ⟨pieces.text, start⟩ (pieces.Cuts start) stretch := by
  induction pieces generalizing start with
  | last text =>
    have huncut : ∀ cut, ¬(last text).Cuts start cut := by
      rintro cut ⟨op, hcut⟩
      cases hcut
    rw [spans, List.mem_singleton]
    constructor
    · rintro rfl
      exact ⟨⟨[], [], by simp [Pieces.text], rfl⟩, Or.inl rfl, Or.inl rfl,
        fun cut hcut => absurd hcut (huncut cut)⟩
    · rintro ⟨hin, hleft, hright, -⟩
      have hstart : stretch.start = start := by
        rcases hleft with hstart | ⟨cut, hcut, -⟩
        · exact hstart
        · exact absurd hcut (huncut cut)
      exact hin.eq hstart (hright.resolve_right (huncut _))
  | before text op rest ih =>
    rw [spans, List.mem_cons, ih]
    constructor
    · rintro (rfl | hrest)
      · exact between_first text op rest start
      · exact between_of_rest hrest
    · intro h
      rcases h.uncut _ (cuts_before.2 (Or.inl rfl)) with hbehind | hbefore
      · exact Or.inr (between_rest h hbehind)
      · exact Or.inl (eq_first_of_between h hbefore)

theorem pairwise_tokens (pieces : Pieces) (start : Nat) :
    (pieces.tokens start).Pairwise (fun first second => first.span.start < second.span.start) := by
  have hspan : ∀ span : Text.Span,
      (Token.ofSpan span).Pairwise (fun first second => first.span.start < second.span.start) := by
    intro span
    unfold Token.ofSpan
    simp only []
    split <;> simp
  induction pieces generalizing start with
  | last text => exact hspan _
  | before text op rest ih =>
    have hbehind : ∀ token ∈ rest.tokens (start + byteSize text + 2),
        start + byteSize text + 2 ≤ token.span.start :=
      fun token hmem => (token_within hmem).start_le
    rw [tokens, List.pairwise_append]
    refine ⟨hspan _, ?_, ?_⟩
    · refine List.pairwise_cons.2 ⟨?_, ih _⟩
      intro token htoken
      have hle := hbehind token htoken
      change start + byteSize text < token.span.start
      omega
    · intro first hfirst second hsecond
      obtain ⟨hnonblank, rfl⟩ := Token.mem_ofSpan.1 hfirst
      have hlt := Text.Span.trim_start_lt hnonblank
      change (Text.Span.trim ⟨text, start⟩).start < second.span.start
      rcases List.mem_cons.1 hsecond with rfl | hsecond
      · exact hlt
      · have hle := hbehind second hsecond
        simp only [Text.Span.stop] at hlt
        omega

/-- Between two operands there is an operator. -/
theorem isChain_tokens (pieces : Pieces) (start : Nat) :
    (pieces.tokens start).IsChain (fun first second => ¬(first.isOperand ∧ second.isOperand)) := by
  induction pieces generalizing start with
  | last text =>
    rw [tokens, Token.ofSpan]
    split <;> simp
  | before text op rest ih =>
    have hrest : (Token.operator op (start + byteSize text) ::
        rest.tokens (start + byteSize text + 2)).IsChain
          (fun first second => ¬(first.isOperand ∧ second.isOperand)) := by
      rw [List.isChain_cons]
      exact ⟨fun token _ => by simp [Token.isOperand], ih _⟩
    rw [tokens, Token.ofSpan]
    split
    · exact hrest
    · rw [List.singleton_append, List.isChain_cons_cons]
      exact ⟨by simp [Token.isOperand], hrest⟩

theorem isBlank_of_outside_tokens {c : Char} {offset : Nat}
    (h : Text.Span.Within ⟨[c], offset⟩ ⟨pieces.text, start⟩)
    (hout : ∀ token ∈ pieces.tokens start,
      offset < token.span.start ∨ token.span.stop ≤ offset) : isBlank c = true := by
  have hstretch : ∀ {text : List Char} {start : Nat},
      Text.Span.Within ⟨[c], offset⟩ ⟨text, start⟩ →
        (∀ token ∈ Token.ofSpan ⟨text, start⟩,
          offset < token.span.start ∨ token.span.stop ≤ offset) → isBlank c = true := by
    intro text start hin hout
    cases hblank : isAllBlank text with
    | true => exact Text.isAllBlank_iff.1 hblank c hin.mem
    | false =>
      exact Text.Span.isBlank_of_outside_trim hin (hout _ (Token.mem_ofSpan.2 ⟨hblank, rfl⟩))
  induction pieces generalizing start with
  | last text => exact hstretch h hout
  | before text op rest ih =>
    rw [tokens, List.forall_mem_append, List.forall_mem_cons] at hout
    obtain ⟨hfirst, hoperator, hrest⟩ := hout
    rcases hoperator with hbefore | hbehind
    · have hwhole : Text.Span.Within ⟨[c], offset⟩
          ⟨text ++ (op.symbol.toList ++ rest.text), start⟩ := by
        rw [← List.append_assoc]
        exact h
      exact hstretch (hwhole.char_left hbefore) hfirst
    · simp only [Text.Span.stop, Token.span, op.byteSize_symbol] at hbehind
      exact ih (within_rest h hbehind) hrest

end Pieces

theorem Token.layout_of_tokenize {text : List Char} {tokens : List Token}
    (h : tokenize text = .ok tokens) : Layout text tokens := by
  obtain ⟨pieces, hpieces, rfl⟩ := tokenize_eq_ok_iff.1 h
  have hcut := (Pieces.ofText_eq_ok_iff 0).1 hpieces
  have hbalanced : ∀ piece ∈ pieces.stretches, Balanced piece :=
    fun piece hpiece => Pieces.balanced_of_mem_stretches hpieces hpiece
  have htext := hcut.text_eq
  refine ⟨?_, ?_, ?_, pieces.pairwise_tokens 0, pieces.isChain_tokens 0, ?_⟩
  · intro op start
    simp only [Pieces.operator_mem_tokens]
    constructor
    · intro hmem
      have hmet := Pieces.metAt_of_mem_operators hbalanced hmem
      rw [htext] at hmet
      exact ⟨hmet, fun other previous hother => Pieces.operators_apart hmem hother⟩
    · rintro ⟨⟨front, back, hsplit, rfl, hfront⟩, hapart⟩
      rcases hcut.cut_where_met hsplit ((balanced_iff_scan 0).1 hfront) with
        hmem | ⟨other, previous, hmem, hprevious⟩
      · rwa [Nat.zero_add] at hmem
      · rw [Nat.zero_add] at hprevious
        exact absurd hprevious (hapart other previous hmem)
  · intro span
    simp only [Pieces.operand_mem_tokens, Pieces.mem_spans_iff, Pieces.operator_mem_tokens, htext]
    constructor
    · rintro ⟨stretch, hstretch⟩
      exact ⟨stretch, hstretch⟩
    · rintro ⟨stretch, hstretch⟩
      exact ⟨stretch, hstretch⟩
  · intro token htoken
    have hwithin := Pieces.token_within htoken
    rwa [htext] at hwithin
  · intro c offset hin hout
    rw [Text.Span.whole, ← htext] at hin
    exact Pieces.isBlank_of_outside_tokens hin hout

/-- A text has one layout at most. Operators are compared from left to right, since whether one
counts depends on the one before it. -/
theorem Token.Layout.unique {text : List Char} {tokens others : List Token}
    (h : Layout text tokens) (hothers : Layout text others) : tokens = others := by
  have hoperator : ∀ start op, .operator op start ∈ tokens ↔ .operator op start ∈ others := by
    intro start
    induction start using Nat.strongRecOn with
    | ind start ih =>
      intro op
      rw [h.operators, hothers.operators]
      apply and_congr_right
      intro _
      constructor
      · intro hapart other previous hmem hprevious
        exact hapart other previous ((ih previous (by omega) other).2 hmem) hprevious
      · intro hapart other previous hmem hprevious
        exact hapart other previous ((ih previous (by omega) other).1 hmem) hprevious
  have hmem : ∀ token, token ∈ tokens ↔ token ∈ others := by
    intro token
    cases token with
    | operand span => simp only [h.operands, hothers.operands, hoperator]
    | operator op start => exact hoperator start op
  have hnodup : ∀ {tokens : List Token}, Layout text tokens → tokens.Nodup := by
    intro tokens hlayout
    apply hlayout.increasing.imp
    rintro first second hlt rfl
    exact Nat.lt_irrefl _ hlt
  have hperm := (List.perm_ext_iff_of_nodup (hnodup h) (hnodup hothers)).2 hmem
  apply hperm.eq_of_pairwise _ h.increasing hothers.increasing
  intro first second _ _ hlt hgt
  exact absurd hlt (Nat.lt_asymm hgt)

/-- A text can be split into tokens exactly where it is balanced, and then into one list of
tokens only. The operators are those that are met with nothing open, from left to right and
without overlap; the operands are the stretches before, between and behind them without the
blanks around, unless nothing is left; all tokens stand where they say, in the order of the
text, no two operands side by side, and all else is blank. -/
theorem tokenize_eq_ok_iff_layout (text : List Char) :
    ((∃ tokens, tokenize text = .ok tokens) ↔ Balanced text) ∧
    ∀ tokens, tokenize text = .ok tokens ↔ Balanced text ∧ Token.Layout text tokens := by
  refine ⟨exists_tokenize_iff, ?_⟩
  intro tokens
  constructor
  · intro h
    exact ⟨exists_tokenize_iff.1 ⟨tokens, h⟩, Token.layout_of_tokenize h⟩
  · rintro ⟨hbalanced, hlayout⟩
    obtain ⟨others, hothers⟩ := exists_tokenize_iff.2 hbalanced
    rw [hlayout.unique (Token.layout_of_tokenize hothers)]
    exact hothers

end TagRules

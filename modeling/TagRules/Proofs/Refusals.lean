import TagRules.Proofs.Layout
import TagRules.Proofs.Reading

/-!
Why a text is refused. The length, a blank text and the scan of the whole text come first, in
this order. Behind them every text that a reader hands on is balanced, so a group, a negated
operand or a piece of a chain can only break the grammar or nest too deeply.
-/

namespace TagRules

open Text (isAllBlank byteSize)
open Outcomes (bind_eq_ok_iff bind_eq_error_iff mapError_eq_error_iff)

/-- What a reader hands on to be read as `form`, where it reads a text itself. -/
inductive Reader.Hands : Form → List Char → Form → List Char → Prop where
  | group {form : Form} {text inner : List Char} : group? (Text.trim text) = some inner →
      Hands form text .chain inner
  | piece {text piece : List Char} {pieces : Pieces} : group? (Text.trim text) = none →
      Pieces.ofText (Text.trim text) = .ok pieces → piece ∈ pieces.stretches →
        Hands .chain text .operand piece
  | negated {text rest : List Char} : Text.trim text = '!' :: rest →
      Hands .operand text .operand rest

/-- What is read on the way while a whole text is read: its groups, negated operands and
pieces, to any depth. -/
inductive Reader.Nested (whole : List Char) : Form → List Char → Prop where
  | direct {form : Form} {text : List Char} : Hands .chain whole form text → Nested whole form text
  | deeper {form form' : Form} {text text' : List Char} : Nested whole form text →
      Hands form text form' text' → Nested whole form' text'

theorem Reader.Hands.balanced {form form' : Form} {text text' : List Char}
    (h : Hands form text form' text') (htext : form = .operand → Balanced text) :
    Balanced text' := by
  cases h with
  | group hgroup => exact balanced_of_group? hgroup
  | piece _ hpieces hpiece => exact Pieces.balanced_of_mem_stretches hpieces hpiece
  | negated htrim =>
    have hbalanced := balanced_trim_iff.2 (htext rfl)
    rw [htrim] at hbalanced
    exact hbalanced.of_plain_cons rfl

/-- Whatever the whole text is, only balanced texts are read on the way. -/
theorem Reader.Nested.balanced {whole text : List Char} {form : Form}
    (h : Nested whole form text) : Balanced text := by
  induction h with
  | direct hhands => exact hhands.balanced (fun hform => by cases hform)
  | deeper _ hhands ih => exact hhands.balanced (fun _ => ih)

/-- The errors that reading a text can end in: those of its grammar, and too many levels. -/
def RuleError.Inner (limit : Nat) : RuleError → Prop
  | .grammar _ => True
  | .tooDeep found => found = limit
  | .tooLong _ _ | .emptyExpression | .scan _ => False

/-- An answer that finds no fault but one of the grammar, or too many levels. -/
def Structured {α : Type} (limit : Nat) (answer : Except RuleError α) : Prop :=
  ∀ error, answer = .error error → error.Inner limit

namespace Structured

variable {α β : Type} {limit : Nat} {answer : Except RuleError α}

theorem ok (limit : Nat) (value : α) : Structured limit (.ok value : Except RuleError α) := by
  intro error h
  cases h

theorem of_error {error : RuleError} (h : error.Inner limit) :
    Structured limit (.error error : Except RuleError α) := by
  intro other hother
  cases hother
  exact h

theorem grammar (limit : Nat) (fault : GrammarError) :
    Structured limit (.error (.grammar fault) : Except RuleError α) :=
  of_error trivial

theorem tooDeep (limit : Nat) :
    Structured limit (.error (.tooDeep limit) : Except RuleError α) :=
  of_error rfl

theorem bind {next : α → Except RuleError β} (h : Structured limit answer)
    (hnext : ∀ value, Structured limit (next value)) : Structured limit (answer >>= next) := by
  intro error herror
  rcases bind_eq_error_iff.1 herror with hanswer | ⟨value, -, hvalue⟩
  · exact h error hanswer
  · exact hnext value error hvalue

theorem ne {error : RuleError} (h : Structured limit answer) (herror : ¬error.Inner limit) :
    answer ≠ .error error :=
  fun hanswer => herror (h error hanswer)

end Structured

theorem structured_iff {α : Type} {limit : Nat} {answer : Except RuleError α} :
    Structured limit answer ↔ (∃ value, answer = .ok value) ∨
      (∃ fault, answer = .error (.grammar fault)) ∨ answer = .error (.tooDeep limit) := by
  constructor
  · intro h
    cases answer with
    | ok value => exact Or.inl ⟨value, rfl⟩
    | error error =>
      have hinner := h error rfl
      cases error with
      | grammar fault => exact Or.inr (Or.inl ⟨fault, rfl⟩)
      | tooDeep found => exact Or.inr (Or.inr (congrArg _ (congrArg _ hinner)))
      | _ => cases hinner
  · rintro (⟨value, rfl⟩ | ⟨fault, rfl⟩ | rfl)
    · exact .ok limit value
    · exact .grammar limit fault
    · exact .tooDeep limit

theorem Pieces.operands_structured {limit : Nat} {operand : Reader} {pieces : Pieces}
    (h : ∀ piece ∈ pieces.stretches, ∀ start, Structured limit (operand ⟨piece, start⟩))
    (before : Option (Operator × Nat)) (start : Nat) :
    Structured limit (pieces.operands operand before start) := by
  induction pieces generalizing before start with
  | last text =>
    unfold operands
    split
    · split
      · exact .grammar limit _
      · exact .grammar limit _
    · exact (h text (by simp [stretches]) _).bind (fun _ => .ok limit _)
  | before text operator rest ih =>
    rw [stretches, List.forall_mem_cons] at h
    unfold operands
    simp only []
    split
    · exact .grammar limit _
    · refine (h.1 _).bind (fun _ => (ih h.2 _ _).bind (fun _ => ?_))
      cases operator <;> exact .ok limit _

namespace Reader

variable {limit : Nat} {inner operand negated : Reader} {span : Text.Span}

/-- A chain finds no other fault than what it hands on, once its own text is cut. -/
theorem chain_structured (hbalanced : Balanced span.text)
    (hinner : ∀ text start, Hands .chain span.text .chain text →
      Structured limit (inner ⟨text, start⟩))
    (hoperand : ∀ text start, Hands .chain span.text .operand text →
      Structured limit (operand ⟨text, start⟩)) :
    Structured limit (chain inner operand span) := by
  obtain ⟨pieces, hpieces⟩ := Pieces.exists_ofText_iff.2 (balanced_trim_iff.2 hbalanced)
  have htext : span.trim.text = Text.trim span.text := rfl
  unfold chain
  simp only [htext]
  split
  · next text hgroup => exact hinner text _ (.group hgroup)
  · next hgroup =>
    rw [hpieces]
    have hread := Pieces.operands_structured
      (fun piece hpiece start => hoperand piece start (.piece hgroup hpieces hpiece))
    exact (hread none span.trim.start).bind (fun _ => .ok limit _)

theorem operand_structured
    (hnegated : ∀ text start, Hands .operand span.text .operand text →
      Structured limit (negated ⟨text, start⟩))
    (hinner : ∀ text start, Hands .operand span.text .chain text →
      Structured limit (inner ⟨text, start⟩)) :
    Structured limit (Reader.operand negated inner span) := by
  have htext : span.trim.text = Text.trim span.text := rfl
  unfold Reader.operand
  simp only [htext]
  split
  · next rest hrest => exact hnegated rest _ (.negated hrest)
  · split
    · next text hgroup => exact hinner text _ (.group hgroup)
    · refine Structured.bind ?_ (fun _ => .ok limit _)
      intro error herror
      obtain ⟨fault, -, rfl⟩ := mapError_eq_error_iff.1 herror
      exact trivial

theorem negated_structured (h : Structured limit (operand span)) :
    Structured limit (Reader.negated operand span) := by
  unfold Reader.negated
  split
  · exact .grammar limit _
  · exact h.bind (fun _ => .ok limit _)

/-- A balanced text is read without a fault of structure on any level. The induction is on
the levels that are left; what is handed on is balanced again. -/
theorem atLevel_structured (maxDepth left : Nat) (form : Form) {span : Text.Span}
    (hbalanced : Balanced span.text) : Structured maxDepth (atLevel maxDepth left form span) := by
  have hhanded : ∀ {form form' : Form} {text text' : List Char}, Balanced text →
      Hands form text form' text' → Balanced text' :=
    fun htext hhands => hhands.balanced (fun _ => htext)
  induction left generalizing form span with
  | zero =>
    cases form with
    | chain => exact .tooDeep maxDepth
    | operand =>
      exact operand_structured (fun _ _ _ => .tooDeep maxDepth) (fun _ _ _ => .tooDeep maxDepth)
  | succ left ih =>
    have hchain : ∀ {span : Text.Span}, Balanced span.text →
        Structured maxDepth (atLevel maxDepth (left + 1) .chain span) := by
      intro span hspan
      exact chain_structured hspan (fun _ _ hhands => ih .chain (hhanded hspan hhands))
        (fun _ _ hhands => ih .operand (hhanded hspan hhands))
    cases form with
    | chain => exact hchain hbalanced
    | operand =>
      exact operand_structured
        (fun _ _ hhands => negated_structured (ih .operand (hhanded hbalanced hhands)))
        (fun _ _ hhands => hchain (hhanded hbalanced hhands))

/-- Where a text cannot be cut, the scan of its trimmed core says what is wrong with it. -/
theorem chain_of_scan_error {fault : ScanError}
    (h : tokenize (Text.trim span.text) = .error fault) :
    chain inner operand span = .error (.scan fault) := by
  have hpieces := tokenize_eq_error_iff.1 h
  have htext : span.trim.text = Text.trim span.text := rfl
  unfold chain
  simp only [htext]
  split
  · next text hgroup =>
    rw [(Pieces.ofText_eq_ok_iff 0).2 (Pieces.cut_of_group? hgroup)] at hpieces
    cases hpieces
  · rw [hpieces]
    rfl

end Reader

/-- What a text is refused for before it is read: its length, then that it is blank, then a
fault in the scan of its trimmed core. -/
inductive Expr.Refused (limits : Limits) (text : List Char) : RuleError → Prop where
  | tooLong : limits.maxLength < byteSize text →
      Refused limits text (.tooLong (byteSize text) limits.maxLength)
  | blank : byteSize text ≤ limits.maxLength → isAllBlank text = true →
      Refused limits text .emptyExpression
  | scan {fault : ScanError} : byteSize text ≤ limits.maxLength → isAllBlank text = false →
      tokenize (Text.trim text) = .error fault → Refused limits text (.scan fault)

/-- What holds of a text that is read: it is short enough, not blank, and its trimmed core can
be scanned. -/
def Expr.Admitted (limits : Limits) (text : List Char) : Prop :=
  byteSize text ≤ limits.maxLength ∧ isAllBlank text = false ∧
    ∃ tokens, tokenize (Text.trim text) = .ok tokens

namespace Expr

variable {limits : Limits} {text : List Char} {error : RuleError}

theorem refused_or_admitted (limits : Limits) (text : List Char) :
    (∃ error, Refused limits text error) ∨ Admitted limits text := by
  rcases Nat.lt_or_ge limits.maxLength (byteSize text) with hlong | hlength
  · exact Or.inl ⟨_, .tooLong hlong⟩
  cases hblank : isAllBlank text with
  | true => exact Or.inl ⟨_, .blank hlength hblank⟩
  | false =>
    cases htokens : tokenize (Text.trim text) with
    | error fault => exact Or.inl ⟨_, .scan hlength hblank htokens⟩
    | ok tokens => exact Or.inr ⟨hlength, hblank, tokens, htokens⟩

theorem Refused.not_inner (h : Refused limits text error) (limit : Nat) : ¬error.Inner limit := by
  cases h <;> exact id

theorem parse_eq_atLevel (hlength : byteSize text ≤ limits.maxLength)
    (h : isAllBlank text = false) :
    parse limits text =
      Reader.atLevel limits.maxDepth (limits.maxDepth + 1) .chain (.whole text) := by
  rw [parse, if_neg (Nat.not_lt.2 hlength), h]
  rfl

theorem Refused.parse (h : Refused limits text error) : parse limits text = .error error := by
  cases h with
  | tooLong hlong => rw [Expr.parse, if_pos hlong]
  | blank hlength hblank => rw [Expr.parse, if_neg (Nat.not_lt.2 hlength), if_pos hblank]
  | scan hlength hblank htokens =>
    rw [parse_eq_atLevel hlength hblank, Reader.atLevel_chain]
    exact Reader.chain_of_scan_error htokens

/-- An admitted text is balanced, so reading it ends in an inner error or in a tree. -/
theorem Admitted.parse (h : Admitted limits text) :
    Structured limits.maxDepth (parse limits text) := by
  obtain ⟨hlength, hblank, htokens⟩ := h
  rw [parse_eq_atLevel hlength hblank]
  apply Reader.atLevel_structured
  exact balanced_trim_iff.1 (exists_tokenize_iff.1 htokens)

end Expr

namespace Rule

variable {limits : Limits} {source : String} {error : RuleError}

theorem parse_eq_error_iff :
    parse limits source = .error error ↔ Expr.parse limits source.toList = .error error := by
  rw [parse]
  cases Expr.parse limits source.toList with
  | error fault => simp [bind, Except.bind]
  | ok tree => simp [bind, Except.bind, pure, Except.pure]

theorem parse_structured_iff :
    Structured limits.maxDepth (parse limits source) ↔ Expr.Admitted limits source.toList := by
  constructor
  · intro h
    rcases Expr.refused_or_admitted limits source.toList with ⟨error, hrefused⟩ | hadmitted
    · exact absurd (parse_eq_error_iff.2 hrefused.parse) (h.ne (hrefused.not_inner _))
    · exact hadmitted
  · intro h
    exact h.parse.bind (fun _ => .ok _ _)

/-- An error that no reading ends in is the refusal of the text. -/
theorem parse_eq_refusal_iff (h : ¬error.Inner limits.maxDepth) :
    parse limits source = .error error ↔ Expr.Refused limits source.toList error := by
  constructor
  · intro herror
    rcases Expr.refused_or_admitted limits source.toList with ⟨other, hrefused⟩ | hadmitted
    · rw [parse_eq_error_iff, hrefused.parse, Except.error.injEq] at herror
      exact herror ▸ hrefused
    · exact absurd herror ((parse_structured_iff.2 hadmitted).ne h)
  · intro hrefused
    exact parse_eq_error_iff.2 hrefused.parse

theorem parse_eq_tooLong_iff {length limit : Nat} :
    parse limits source = .error (.tooLong length limit) ↔
      limits.maxLength < byteSize source.toList ∧ length = byteSize source.toList ∧
        limit = limits.maxLength := by
  rw [parse_eq_refusal_iff id]
  constructor
  · intro h
    cases h with
    | tooLong hlong => exact ⟨hlong, rfl, rfl⟩
  · rintro ⟨hlong, rfl, rfl⟩
    exact .tooLong hlong

theorem parse_eq_emptyExpression_iff :
    parse limits source = .error .emptyExpression ↔
      byteSize source.toList ≤ limits.maxLength ∧ isAllBlank source.toList = true := by
  rw [parse_eq_refusal_iff id]
  constructor
  · intro h
    cases h with
    | blank hlength hblank => exact ⟨hlength, hblank⟩
  · rintro ⟨hlength, hblank⟩
    exact .blank hlength hblank

theorem parse_eq_scan_iff {fault : ScanError} :
    parse limits source = .error (.scan fault) ↔
      byteSize source.toList ≤ limits.maxLength ∧ isAllBlank source.toList = false ∧
        tokenize (Text.trim source.toList) = .error fault := by
  rw [parse_eq_refusal_iff id]
  constructor
  · intro h
    cases h with
    | scan hlength hblank htokens => exact ⟨hlength, hblank, htokens⟩
  · rintro ⟨hlength, hblank, htokens⟩
    exact .scan hlength hblank htokens

end Rule

theorem Pieces.exists_stretch_of_mem_tokens {pieces : Pieces} {start : Nat} {span : Text.Span}
    (h : .operand span ∈ pieces.tokens start) :
    ∃ piece ∈ pieces.stretches, span.text = Text.trim piece ∧ span.text ≠ [] := by
  obtain ⟨stretch, hstretch, hnonblank, rfl⟩ := operand_mem_tokens.1 h
  refine ⟨stretch.text, text_mem_stretches hstretch, rfl, ?_⟩
  intro hempty
  rw [Text.isAllBlank_iff_trim.2 hempty] at hnonblank
  cases hnonblank

/-- A clause is a rule text of its own that is neither blank nor broken in its structure. -/
theorem Expr.parse_clause {text : List Char} {tokens : List Token} {span : Text.Span}
    (htokens : tokenize text = .ok tokens) (hspan : .operand span ∈ tokens) (limits : Limits) :
    parse limits span.text ≠ .error .emptyExpression ∧
      ∀ fault, parse limits span.text ≠ .error (.scan fault) := by
  obtain ⟨pieces, hpieces, rfl⟩ := tokenize_eq_ok_iff.1 htokens
  obtain ⟨piece, hpiece, htrim, hne⟩ := Pieces.exists_stretch_of_mem_tokens hspan
  have hbalanced := balanced_trim_iff.2 (Pieces.balanced_of_mem_stretches hpieces hpiece)
  obtain ⟨clauseTokens, hclause⟩ := exists_tokenize_iff.2 hbalanced
  have hblank : isAllBlank span.text = false := by
    rw [Bool.eq_false_iff, ne_eq, Text.isAllBlank_iff_trim, htrim, Text.trim_trim, ← htrim]
    exact hne
  rcases Nat.lt_or_ge limits.maxLength (byteSize span.text) with hlong | hlength
  · rw [(Refused.tooLong hlong).parse]
    exact ⟨by simp, by simp⟩
  · rw [← Text.trim_trim, ← htrim] at hclause
    have hstructured := Admitted.parse ⟨hlength, hblank, clauseTokens, hclause⟩
    exact ⟨hstructured.ne id, fun fault => hstructured.ne id⟩

/-- Which refusal a text gets is settled from the outside to the inside: its length, then
whether it is blank, then the scan of its trimmed core. Only where none of these objects is
it read, and then neither a group, nor a negated operand, nor a piece of a chain can turn out
blank or broken in its structure, on whatever level it is read; nor can a clause that is read
as a rule of its own. -/
theorem Rule.parse_refusals (limits : Limits) (source : String) :
    let text := source.toList
    (∀ length limit, parse limits source = .error (.tooLong length limit) ↔
      limits.maxLength < byteSize text ∧ length = byteSize text ∧ limit = limits.maxLength) ∧
    (parse limits source = .error .emptyExpression ↔
      byteSize text ≤ limits.maxLength ∧ isAllBlank text = true) ∧
    (∀ fault, parse limits source = .error (.scan fault) ↔
      byteSize text ≤ limits.maxLength ∧ isAllBlank text = false ∧
        tokenize (Text.trim text) = .error fault) ∧
    ((∃ rule, parse limits source = .ok rule) ∨
        (∃ fault, parse limits source = .error (.grammar fault)) ∨
          parse limits source = .error (.tooDeep limits.maxDepth) ↔
      byteSize text ≤ limits.maxLength ∧ isAllBlank text = false ∧
        ∃ tokens, tokenize (Text.trim text) = .ok tokens) ∧
    (∀ form inner, Reader.Nested text form inner → ∀ maxDepth left start,
      Reader.atLevel maxDepth left form ⟨inner, start⟩ ≠ .error .emptyExpression ∧
        ∀ fault, Reader.atLevel maxDepth left form ⟨inner, start⟩ ≠ .error (.scan fault)) ∧
    ∀ tokens span, tokenize text = .ok tokens → .operand span ∈ tokens → ∀ limits,
      Expr.parse limits span.text ≠ .error .emptyExpression ∧
        ∀ fault, Expr.parse limits span.text ≠ .error (.scan fault) := by
  intro text
  refine ⟨fun length limit => parse_eq_tooLong_iff, parse_eq_emptyExpression_iff,
    fun fault => parse_eq_scan_iff, ?_, fun form inner hinner maxDepth left start => ?_,
    fun tokens span htokens hspan limits => Expr.parse_clause htokens hspan limits⟩
  · rw [← structured_iff]
    exact parse_structured_iff
  · have hstructured : Structured maxDepth (Reader.atLevel maxDepth left form ⟨inner, start⟩) :=
      Reader.atLevel_structured maxDepth left form hinner.balanced
    exact ⟨hstructured.ne id, fun fault => hstructured.ne id⟩

/-- The blank group that is negated here breaks the grammar where it is reached, and without
levels to reach it the text nests too deeply. On no level is it taken for a blank rule. -/
theorem Rule.parse_refusals_of_blank_group :
    let source := "!( ) && ((scope.wat(']')))"
    parse ⟨0, 26⟩ source = .error (.tooDeep 0) ∧
      parse .unbounded source = .error (.grammar (.expectedExpression 3)) ∧
      (∃ tokens, tokenize (Text.trim source.toList) = .ok tokens) ∧
      Reader.Nested source.toList .chain [' '] ∧
      ∀ maxDepth left start,
        Reader.atLevel maxDepth left .chain ⟨[' '], start⟩ ≠ .error .emptyExpression := by
  intro source
  have hshallow : parse ⟨0, 26⟩ source = .error (.tooDeep 0) := by decide +kernel
  have hparse : parse .unbounded source = .error (.grammar (.expectedExpression 3)) := by
    decide +kernel
  have hnested : Reader.Nested source.toList .chain [' '] := by
    have hpieces : Pieces.ofText (Text.trim source.toList) =
        .ok (.before "!( ) ".toList .and (.last " ((scope.wat(']')))".toList)) :=
      Outcomes.eq_ok_of_toOption (by decide +kernel)
    have hpiece : Reader.Nested source.toList .operand "!( ) ".toList :=
      .direct (.piece (by decide +kernel) hpieces (List.mem_cons_self ..))
    have hnegated : Reader.Nested source.toList .operand "( )".toList :=
      hpiece.deeper (.negated (by decide +kernel))
    exact hnegated.deeper (.group (by decide +kernel))
  obtain ⟨-, -, -, htokens, hinner, -⟩ := parse_refusals ⟨0, 26⟩ source
  refine ⟨hshallow, hparse, (htokens.1 (Or.inr (Or.inr hshallow))).2.2, hnested, ?_⟩
  intro maxDepth left start
  exact (hinner .chain [' '] hnested maxDepth left start).1

end TagRules

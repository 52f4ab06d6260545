import TagRules.Explanation
import TagRules.Proofs.Reading

/-!
The clauses of a rule text. A text that is read as a whole is cut at its top-level
operators without fault, and each piece is read again by itself, as the operand it
was, within the same limits.
-/

namespace TagRules

open Text (isAllBlank byteSize)
open Outcomes (bind_eq_ok_iff mapError_eq_ok_iff)

namespace Pieces

/-- The clauses of a cut text, where `trees` are the trees of its pieces in order. -/
def clauses (tags : TagSet) : Pieces → List Expr → List Clause
  | last text, tree :: _ => [Clause.describe tags (Text.trim text) (tree.holds tags) none]
  | before text operator rest, tree :: trees =>
    Clause.describe tags (Text.trim text) (tree.holds tags) (some operator) ::
      rest.clauses tags trees
  | _, [] => []

variable {reads : List Char → Expr → Prop} {pieces : Pieces} {first : List Expr}
  {others : List (List Expr)}

theorem Reads.within (h : Reads reads pieces first others) {limit : Nat}
    (hlimit : byteSize pieces.text ≤ limit) :
    Reads (fun text tree => reads text tree ∧ byteSize text ≤ limit) pieces first others := by
  induction h with
  | last htext => exact .last ⟨htext, hlimit⟩
  | and htext _ ih =>
    rw [Pieces.text, Text.byteSize_append, Text.byteSize_append] at hlimit
    exact .and ⟨htext, by omega⟩ (ih (by omega))
  | or htext _ ih =>
    rw [Pieces.text, Text.byteSize_append, Text.byteSize_append] at hlimit
    exact .or ⟨htext, by omega⟩ (ih (by omega))

end Pieces

/-- What is readable as an operand is a rule of its own. -/
theorem Readable.parse {limits : Limits} {depth : Nat} {text : List Char} {tree : Expr}
    (h : Readable limits.maxDepth depth text tree) (hdepth : depth ≤ limits.maxDepth)
    (hlength : byteSize text ≤ limits.maxLength) :
    Expr.parse limits (Text.trim text) = .ok tree := by
  -- As an operand it was read with all levels left, and so the grammar derives it.
  have hread := h.2 limits.maxDepth (.whole (Text.trim text)) hdepth (Text.trim_trim text)
  obtain ⟨tests, least, hleast, hderives⟩ := (Reader.sound _ _).2 _ _ hread
  have hsize := Nat.le_trans (Text.byteSize_trim_le text) hlength
  exact Expr.parse_eq_ok_iff.2 ⟨hsize, tests, least, hleast, .conjunct (.operand hderives)⟩

/-- The pieces of a rule text are operands that keep within the limits of the whole. -/
theorem Expr.exists_pieces_of_parse {limits : Limits} {text : List Char} {tree : Expr}
    (h : parse limits text = .ok tree) :
    ∃ pieces first others, Pieces.ofText text = .ok pieces ∧
      pieces.Reads (fun text tree => Readable limits.maxDepth limits.maxDepth text tree ∧
        byteSize text ≤ limits.maxLength) first others ∧
      tree = ofAlternatives first others := by
  obtain ⟨hlength, tests, depth, hdepth, hderives⟩ := parse_eq_ok_iff.1 h
  obtain ⟨pieces, first, others, hcut, hreads, htree⟩ := hderives.read limits.maxDepth
  refine ⟨pieces, first, others, (Pieces.ofText_eq_ok_iff 0).2 hcut, ?_, htree⟩
  have hsize : byteSize pieces.text ≤ limits.maxLength := by rwa [hcut.text_eq]
  exact (hreads.mono (fun _ _ htext => htext.mono hdepth)).within hsize

theorem Clause.ofTokens_operand {limits : Limits} {tags : TagSet} {span : Text.Span} {tree : Expr}
    {rest : List Token} {clauses : List Clause} (htree : Expr.parse limits span.text = .ok tree)
    (hrest : ofTokens limits tags rest = .ok clauses) :
    ofTokens limits tags (.operand span :: rest) =
      .ok (describe tags span.text (tree.holds tags) (Token.leadingOperator? rest) :: clauses) := by
  rw [ofTokens, htree]
  exact bind_eq_ok_iff.2 ⟨tree, rfl, bind_eq_ok_iff.2 ⟨clauses, hrest, rfl⟩⟩

/-- Where every piece is a rule of its own, the clauses are those of the pieces. -/
theorem Pieces.Reads.ofTokens {limits : Limits} {pieces : Pieces} {first : List Expr}
    {others : List (List Expr)}
    (h : pieces.Reads (fun text tree => isAllBlank text = false ∧
      Expr.parse limits (Text.trim text) = .ok tree) first others) (tags : TagSet) (start : Nat) :
    Clause.ofTokens limits tags (pieces.tokens start) =
      .ok (pieces.clauses tags (first ++ others.flatten)) := by
  induction h generalizing start with
  | last htext =>
    rw [Pieces.tokens, Token.ofSpan_of_nonblank htext.1]
    exact Clause.ofTokens_operand htext.2 rfl
  | and htext _ ih =>
    rw [Pieces.tokens, Token.ofSpan_of_nonblank htext.1]
    exact Clause.ofTokens_operand htext.2 (ih _)
  | or htext _ ih =>
    rw [Pieces.tokens, Token.ofSpan_of_nonblank htext.1]
    exact Clause.ofTokens_operand htext.2 (ih _)

/-- The explanation of a rule has the rule's verdict and the clauses of its pieces, and the
pieces are the same for all tag sets. -/
theorem exists_explain?_eq_ok {limits : Limits} {source : String} {rule : Rule}
    (h : Rule.parse limits source = .ok rule) :
    ∃ pieces first others, Pieces.ofText source.toList = .ok pieces ∧
      pieces.Reads (fun text tree => Readable limits.maxDepth limits.maxDepth text tree ∧
        byteSize text ≤ limits.maxLength) first others ∧
      rule.tree = Expr.ofAlternatives first others ∧
      ∀ tags, explain? limits source tags =
        .ok ⟨rule.holds tags, pieces.clauses tags (first ++ others.flatten)⟩ := by
  obtain ⟨-, hparse⟩ := Rule.parse_eq_ok_iff.1 h
  obtain ⟨pieces, first, others, hpieces, hreads, htree⟩ := Expr.exists_pieces_of_parse hparse
  have htokens : tokenize source.toList = .ok (pieces.tokens 0) :=
    bind_eq_ok_iff.2 ⟨pieces, hpieces, rfl⟩
  refine ⟨pieces, first, others, hpieces, hreads, htree, ?_⟩
  intro tags
  have hclauses := (hreads.mono (fun _ _ htext =>
    And.intro htext.1.1 (htext.1.parse (Nat.le_refl _) htext.2))).ofTokens tags 0
  rw [explain?, h]
  refine bind_eq_ok_iff.2 ⟨rule, rfl, ?_⟩
  refine bind_eq_ok_iff.2 ⟨_, mapError_eq_ok_iff.2 htokens, ?_⟩
  exact bind_eq_ok_iff.2 ⟨_, hclauses, rfl⟩

theorem explain?_eq_ok {limits : Limits} {source : String} {rule : Rule}
    (h : Rule.parse limits source = .ok rule) (tags : TagSet) :
    ∃ pieces first others, Pieces.ofText source.toList = .ok pieces ∧
      pieces.Reads (fun text tree => Readable limits.maxDepth limits.maxDepth text tree ∧
        byteSize text ≤ limits.maxLength) first others ∧
      rule.tree = Expr.ofAlternatives first others ∧
      explain? limits source tags =
        .ok ⟨rule.holds tags, pieces.clauses tags (first ++ others.flatten)⟩ := by
  obtain ⟨pieces, first, others, hpieces, hreads, htree, hexplain⟩ := exists_explain?_eq_ok h
  exact ⟨pieces, first, others, hpieces, hreads, htree, hexplain tags⟩

theorem Pieces.Reads.exists_of_mem_clauses {pieces : Pieces} {first : List Expr}
    {others : List (List Expr)} {reads : List Char → Expr → Prop}
    (h : pieces.Reads reads first others) {tags : TagSet} {clause : Clause}
    (hclause : clause ∈ pieces.clauses tags (first ++ others.flatten)) :
    ∃ text tree joiner, reads text tree ∧
      clause = Clause.describe tags (Text.trim text) (tree.holds tags) joiner := by
  induction h with
  | last htext => exact ⟨_, _, none, htext, List.mem_singleton.1 hclause⟩
  | and htext _ ih =>
    rcases List.mem_cons.1 hclause with hfirst | hrest
    · exact ⟨_, _, some .and, htext, hfirst⟩
    · exact ih hrest
  | or htext _ ih =>
    rw [List.flatten_cons, List.singleton_append] at hclause
    rcases List.mem_cons.1 hclause with hfirst | hrest
    · exact ⟨_, _, some .or, htext, hfirst⟩
    · exact ih hrest

/-- Every clause of an explanation is a rule of its own, and its verdict is that of this rule. -/
theorem exists_parse_of_mem_clauses {limits : Limits} {source : String} {tags : TagSet}
    {explanation : Explanation} (h : explain? limits source tags = .ok explanation)
    {clause : Clause} (hclause : clause ∈ explanation.clauses) :
    ∃ text tree joiner, Text.trim text = text ∧ Expr.parse limits text = .ok tree ∧
      clause = Clause.describe tags text (tree.holds tags) joiner := by
  obtain ⟨rule, hparse, -⟩ := bind_eq_ok_iff.1 h
  obtain ⟨pieces, first, others, -, hreads, -, hexplain⟩ := explain?_eq_ok hparse tags
  rw [h] at hexplain
  cases hexplain
  obtain ⟨text, tree, joiner, hread, rfl⟩ := hreads.exists_of_mem_clauses hclause
  exact ⟨Text.trim text, tree, joiner, Text.trim_trim text, hread.1.parse (Nat.le_refl _) hread.2,
    rfl⟩

theorem map_holds_explain? (limits : Limits) (source : String) (tags : TagSet) :
    (explain? limits source tags).map Explanation.holds =
      (Rule.parse limits source).map (fun rule => rule.holds tags) := by
  cases hparse : Rule.parse limits source with
  | error error =>
    rw [explain?, hparse]
    rfl
  | ok rule =>
    obtain ⟨_, _, _, _, _, _, hexplain⟩ := explain?_eq_ok hparse tags
    rw [hexplain]
    rfl

theorem RuleError.level_report (operation source : String) (error : RuleError) :
    (error.report operation source).level = if error = .emptyExpression then .debug else .warn := by
  cases error <;> rfl

/-- An explanation and an evaluation never disagree, on the error, on the verdict, or on
what is logged. -/
theorem explain_agrees_with_evaluate (limits : Limits) (source : String) (tags : TagSet) :
    (explain? limits source tags).map Explanation.holds =
      (Rule.parse limits source).map (fun rule => rule.holds tags) ∧
    (explain source tags).value.holds = (evaluate .standard source tags).value ∧
    match Rule.parse .standard source with
    | .ok _ => (explain source tags).records = [] ∧ (evaluate .standard source tags).records = []
    | .error error =>
      let level : Log.Level := if error = .emptyExpression then .debug else .warn
      (explain source tags).value.clauses = [] ∧
        (explain source tags).records.map Log.Record.level = [level] ∧
        (evaluate .standard source tags).records.map Log.Record.level = [level] := by
  refine ⟨map_holds_explain? limits source tags, ?_⟩
  cases hparse : Rule.parse .standard source with
  | error error =>
    have hexplain : explain? .standard source tags = .error error := by
      rw [explain?, hparse]
      rfl
    have hevaluate : evaluate? .standard source tags = .error error := by
      rw [evaluate?, hparse]
      rfl
    rw [explain, hexplain, evaluate, hevaluate]
    refine ⟨rfl, rfl, ?_, ?_⟩
    · exact congrArg (fun level => [level]) (error.level_report "explain" source)
    · exact congrArg (fun level => [level]) (error.level_report "evaluate" source)
  | ok rule =>
    obtain ⟨_, _, _, _, _, _, hexplain⟩ := explain?_eq_ok hparse tags
    have hevaluate : evaluate? .standard source tags = .ok (rule.holds tags) := by
      rw [evaluate?, hparse]
      rfl
    rw [explain, hexplain, evaluate, hevaluate]
    exact ⟨rfl, rfl, rfl⟩

end TagRules

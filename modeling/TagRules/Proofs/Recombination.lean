import TagRules.Proofs.Clauses
import TagRules.Proofs.Flattening

/-!
The clauses of a rule put together again. Their verdicts, joined as the clauses are, make
the verdict of the rule, and their sources, joined likewise, make a text with the tree of
the rule.
-/

namespace TagRules

open Text (isAllBlank byteSize)
open Outcomes (bind_eq_ok_iff)

/-- The clauses cut after each one that `||` joins to the next. -/
def Clause.runs : List Clause → List (List Clause)
  | [] => []
  | clause :: rest =>
    if clause.joiner = some .or then [clause] :: runs rest
    else
      match runs rest with
      | [] => [[clause]]
      | run :: others => (clause :: run) :: others

/-- The sources of the clauses with the joiners between them, a space on either side. -/
def Clause.rejoined : List Clause → List Char
  | [] => []
  | clause :: rest =>
    clause.source.toList ++ clause.joiner.elim [] Operator.spaced ++ rejoined rest

/-- Every clause but the last says how it is joined to the next. -/
def Clause.Linked (clauses : List Clause) : Prop :=
  ∃ front last, clauses = front ++ [last] ∧ last.joiner = none ∧
    ∀ clause ∈ front, clause.joiner.isSome = true

theorem Clause.Linked.cons {clause : Clause} {rest : List Clause}
    (hjoiner : clause.joiner.isSome = true) (h : Linked rest) : Linked (clause :: rest) := by
  obtain ⟨front, last, rfl, hlast, hfront⟩ := h
  refine ⟨clause :: front, last, rfl, hlast, ?_⟩
  intro other hother
  rcases List.mem_cons.1 hother with rfl | hother
  · exact hjoiner
  · exact hfront other hother

namespace Expr

/-- A rule holds where all operands of one of its alternatives do. -/
theorem holds_ofAlternatives (tags : TagSet) (first : List Expr) (others : List (List Expr)) :
    (ofAlternatives first others).holds tags =
      (first :: others).any (fun operands => operands.all (holds tags)) := by
  have hconjunction : ∀ operands : List Expr,
      (group and operands).holds tags = operands.all (holds tags) := by
    intro operands
    have hgroup := holds_group tags .and operands
    rwa [Operator.verdict, List.all_map] at hgroup
  have hdisjunction := holds_group tags .or ((first :: others).map (group and))
  rw [Operator.verdict, List.map_map, List.any_map] at hdisjunction
  rw [ofAlternatives]
  refine hdisjunction.trans ?_
  simp only [Function.comp_def, hconjunction, id]

end Expr

theorem Readable.derivedOperand {maxDepth depth : Nat} {text : List Char} {tree : Expr}
    (h : Readable maxDepth depth text tree) : DerivedOperand depth text tree := by
  have hread := h.2 depth (.whole text) (Nat.le_refl _) rfl
  exact (Reader.sound maxDepth depth).2 (.whole text) tree hread

theorem Derives.parse_unbounded {phrase : Phrase} (h : Derives .chain phrase)
    (hfits : byteSize phrase.text ≤ Limits.largest) :
    Expr.parse .unbounded phrase.text = .ok phrase.tree := by
  have hdepth := Nat.le_trans h.depth_le_length (Text.length_le_byteSize phrase.text)
  exact Expr.parse_eq_ok_iff.2
    ⟨hfits, phrase.tests, phrase.depth, Nat.le_trans hdepth hfits, h⟩

namespace Pieces

theorem text_prepend (front : List Char) (pieces : Pieces) :
    (pieces.prepend front).text = front ++ pieces.text := by
  cases pieces <;> simp [prepend, text]

/-- The pieces trimmed, with one space on either side of each operator. -/
def tidied : Pieces → Pieces
  | last piece => last (Text.trim piece)
  | before piece operator rest =>
    before (Text.trim piece ++ [' ']) operator (rest.tidied.prepend [' '])

theorem byteSize_tidied_le (pieces : Pieces) :
    byteSize pieces.tidied.text ≤ 2 * byteSize pieces.text := by
  induction pieces with
  | last piece =>
    have htrim := Text.byteSize_trim_le piece
    rw [tidied, text, text]
    omega
  | before piece operator rest ih =>
    have htrim := Text.byteSize_trim_le piece
    have hspace : byteSize [' '] = 1 := rfl
    have hsymbol : byteSize operator.symbol.toList = 2 := by cases operator <;> rfl
    rw [tidied, text, text, text_prepend]
    simp only [Text.byteSize_append, hspace, hsymbol]
    omega

variable {reads : List Char → Expr → Prop} {pieces : Pieces} {first : List Expr}
  {others : List (List Expr)}

theorem Reads.tidied (hblind : Blind reads) (h : Reads reads pieces first others) :
    Reads reads pieces.tidied first others := by
  have hspace : isAllBlank [' '] = true := rfl
  have hpiece : ∀ {text tree}, reads text tree → reads (Text.trim text ++ [' ']) tree := by
    intro text tree htext
    have htrim := Text.trim_append_blank hspace (Text.trim text)
    rw [Text.trim_trim] at htrim
    exact hblind _ _ _ htrim.symm htext
  induction h with
  | last htext => exact .last (hblind _ _ _ (Text.trim_trim _).symm htext)
  | and htext _ ih => exact .and (hpiece htext) ((Reads.prepend_iff hblind hspace).2 ih)
  | or htext _ ih => exact .or (hpiece htext) ((Reads.prepend_iff hblind hspace).2 ih)

theorem Reads.linked_clauses (h : Reads reads pieces first others) (tags : TagSet) :
    Clause.Linked (pieces.clauses tags (first ++ others.flatten)) := by
  induction h with
  | last _ => exact ⟨[], _, rfl, rfl, by simp⟩
  | and _ _ ih => exact ih.cons rfl
  | or _ _ ih => exact ih.cons rfl

/-- The runs of the clauses are the alternatives of the rule, operand by operand. -/
theorem Reads.runs_clauses (h : Reads reads pieces first others) (tags : TagSet) :
    (Clause.runs (pieces.clauses tags (first ++ others.flatten))).map (List.map Clause.holds) =
      (first :: others).map (List.map (Expr.holds tags)) := by
  induction h with
  | last _ => rfl
  | @and text tree rest first others _ _ ih =>
    rw [List.map_cons] at ih
    rw [List.cons_append, clauses, Clause.runs, if_neg (by simp [Clause.describe])]
    split
    · next hruns =>
      rw [hruns] at ih
      cases ih
    · next run runs hruns =>
      rw [hruns, List.map_cons] at ih
      obtain ⟨hrun, hothers⟩ := List.cons.inj ih
      rw [List.map_cons, List.map_cons, List.map_cons, hrun, hothers]
      rfl
  | @or text tree rest first others _ _ ih =>
    rw [List.flatten_cons, List.singleton_append, clauses, Clause.runs,
      if_pos (by simp [Clause.describe]), List.map_cons, ih]
    rfl

theorem Reads.rejoined_clauses (h : Reads reads pieces first others) (tags : TagSet) :
    Clause.rejoined (pieces.clauses tags (first ++ others.flatten)) = pieces.tidied.text := by
  induction h with
  | last _ => simp [clauses, Clause.rejoined, Clause.describe, Pieces.tidied, Pieces.text]
  | and _ _ ih =>
    rw [List.cons_append, clauses, Clause.rejoined, ih]
    simp [Clause.describe, Operator.spaced, Pieces.tidied, Pieces.text, text_prepend]
  | or _ _ ih =>
    rw [List.flatten_cons, List.singleton_append, clauses, Clause.rejoined, ih]
    simp [Clause.describe, Operator.spaced, Pieces.tidied, Pieces.text, text_prepend]

end Pieces

/-- The clauses of an explanation make up its rule. The rule holds where every clause of some
run holds, and the clauses written one after the other are read as the same tree. That text is
at most twice as long as the rule text; the last hypothesis says that it can be stored. -/
theorem explain?_recombines {limits : Limits} {source : String} {tags : TagSet}
    {explanation : Explanation} (h : explain? limits source tags = .ok explanation) :
    Clause.Linked explanation.clauses ∧
    (explanation.holds = true ↔
      ∃ run ∈ Clause.runs explanation.clauses, ∀ clause ∈ run, clause.holds = true) ∧
    byteSize (Clause.rejoined explanation.clauses) ≤ 2 * byteSize source.toList ∧
    ∃ rule, Rule.parse limits source = .ok rule ∧
      (byteSize (Clause.rejoined explanation.clauses) ≤ Limits.largest →
        let text := String.ofList (Clause.rejoined explanation.clauses)
        Rule.parse .unbounded text = .ok ⟨text, rule.tree⟩) := by
  obtain ⟨rule, hparse, -⟩ := bind_eq_ok_iff.1 h
  obtain ⟨pieces, first, others, hpieces, hreads, htree, hexplain⟩ := explain?_eq_ok hparse tags
  rw [h] at hexplain
  cases hexplain
  have hrejoined := hreads.rejoined_clauses tags
  refine ⟨hreads.linked_clauses tags, ?_, ?_, rule, hparse, ?_⟩
  · -- The verdicts of the runs are those of the alternatives, and `||` asks for one of them.
    have hruns := hreads.runs_clauses tags
    have hany := Expr.holds_ofAlternatives tags first others
    have hverdicts : (first :: others).any (fun operands => operands.all (Expr.holds tags)) =
        (Clause.runs (pieces.clauses tags (first ++ others.flatten))).any
          (fun run => run.all Clause.holds) := by
      have hsame := congrArg (List.any · (List.all · id)) hruns
      simpa only [List.any_map, List.all_map, Function.comp_def, id] using hsame.symm
    rw [Rule.holds, htree, hany, hverdicts]
    simp only [List.any_eq_true, List.all_eq_true]
  · have hcut := (Pieces.ofText_eq_ok_iff 0).1 hpieces
    rw [hrejoined, ← hcut.text_eq]
    exact pieces.byteSize_tidied_le
  · intro hfits
    have htidied := (hreads.mono (fun _ _ htext => htext.1)).tidied (Readable.blind _ _)
    obtain ⟨tests, depth, -, hderives⟩ :=
      (htidied.mono (fun _ _ htext => htext.derivedOperand)).derives
    rw [← hrejoined, ← htree] at hderives
    have hread := hderives.parse_unbounded hfits
    exact Rule.parse_eq_ok_iff.2 ⟨rfl, by rw [String.toList_ofList]; exact hread⟩

/-- Three clauses of which the first two make one run. The rule holds by that run although the
last clause fails. -/
theorem explain?_recombines_group_and_negation :
    let limits : Limits := ⟨2, 80⟩
    let source := " (scope.has('a')||scope.has('b'))&&!scope.has('c') ||\tscope.has(\"d\")"
    let tags := TagSet.ofList ["b"]
    let group : Clause := ⟨"(scope.has('a')||scope.has('b'))", true, [], [], some .and⟩
    let negation : Clause := ⟨"!scope.has('c')", true, [], ["c"], some .or⟩
    let last : Clause := ⟨"scope.has(\"d\")", false, [], ["d"], none⟩
    let text := "(scope.has('a')||scope.has('b')) && !scope.has('c') || scope.has(\"d\")"
    let tree : Expr := .or [.and [.or [.atom (.has "a"), .atom (.has "b")],
      .not (.atom (.has "c"))], .atom (.has "d")]
    explain? limits source tags = .ok ⟨true, [group, negation, last]⟩ ∧
      Clause.runs [group, negation, last] = [[group, negation], [last]] ∧
      String.ofList (Clause.rejoined [group, negation, last]) = text ∧
      byteSize (Clause.rejoined [group, negation, last]) ≤ Limits.largest ∧
      Rule.parse .unbounded text = .ok ⟨text, tree⟩ := by
  intro limits source tags group negation last text tree
  have hexplain : explain? limits source tags = .ok ⟨true, [group, negation, last]⟩ :=
    Outcomes.eq_ok_of_toOption (by decide +kernel)
  have hparse : Rule.parse limits source = .ok ⟨source, tree⟩ :=
    Outcomes.eq_ok_of_toOption (by decide +kernel)
  have htext : String.ofList (Clause.rejoined [group, negation, last]) = text := by decide +kernel
  have hfits : byteSize (Clause.rejoined [group, negation, last]) ≤ Limits.largest := by
    decide +kernel
  obtain ⟨-, -, -, rule, hrule, hread⟩ := explain?_recombines hexplain
  rw [hparse] at hrule
  cases hrule
  have hagain := hread hfits
  simp only [htext] at hagain
  exact ⟨hexplain, by decide +kernel, htext, hfits, hagain⟩

end TagRules

import TagRules.Proofs.Canonical
import TagRules.Selection

/-!
What a synthesised rule means. Its tree joins one condition for each mode that is
selected, and one for each excluded key, so its text nests at most one level deep, and it
is read again wherever no selected key has a double quote in it.
-/

namespace TagRules

open Text (byteSize)

namespace Selection

variable {selections : List Selection} {mode : SelectionMode} {key : String} {condition : Expr}
  {tags : TagSet}

theorem mem_keysOf : key ∈ keysOf mode selections ↔ ⟨key, mode⟩ ∈ selections := by
  rw [keysOf, List.mem_map]
  constructor
  · rintro ⟨selection, hselection, rfl⟩
    obtain ⟨hmem, hmode⟩ := List.mem_filter.1 hselection
    rw [← of_decide_eq_true hmode]
    exact hmem
  · intro hmem
    exact ⟨⟨key, mode⟩, List.mem_filter.2 ⟨hmem, decide_eq_true rfl⟩, rfl⟩

theorem mem_testOver {test : List String → Atom} {keys : List String} :
    condition ∈ testOver test keys ↔ keys ≠ [] ∧ condition = .atom (test keys) := by
  cases keys with
  | nil => simp [testOver]
  | cons key rest => simp [testOver]

/-- The conditions are one test over all required keys, one over all keys of which one is
enough, and a negated one for each excluded key. -/
theorem mem_conditions : condition ∈ conditions selections ↔
    (keysOf .mustHaveAll selections ≠ [] ∧
      condition = .atom (.hasAll (keysOf .mustHaveAll selections))) ∨
    (keysOf .anyOf selections ≠ [] ∧
      condition = .atom (.hasAny (keysOf .anyOf selections))) ∨
    ∃ key ∈ keysOf .exclude selections, condition = .not (.atom (.has key)) := by
  rw [conditions, List.mem_append, List.mem_append, or_assoc, mem_testOver, mem_testOver,
    List.mem_map]
  simp only [eq_comm]

theorem exists_test_of_mem_conditions (h : condition ∈ conditions selections) :
    ∃ test : Atom, condition = .atom test ∨ condition = .not (.atom test) := by
  rcases mem_conditions.1 h with ⟨-, rfl⟩ | ⟨-, rfl⟩ | ⟨key, -, rfl⟩
  · exact ⟨_, Or.inl rfl⟩
  · exact ⟨_, Or.inl rfl⟩
  · exact ⟨_, Or.inr rfl⟩

theorem conditions_ne_nil (h : selections ≠ []) : conditions selections ≠ [] := by
  obtain ⟨⟨key, mode⟩, hmem⟩ := List.exists_mem_of_ne_nil selections h
  have hkey : key ∈ keysOf mode selections := mem_keysOf.2 hmem
  have hcondition : ∃ condition, condition ∈ conditions selections := by
    cases mode with
    | mustHaveAll => exact ⟨_, mem_conditions.2 (Or.inl ⟨List.ne_nil_of_mem hkey, rfl⟩)⟩
    | anyOf => exact ⟨_, mem_conditions.2 (Or.inr (Or.inl ⟨List.ne_nil_of_mem hkey, rfl⟩))⟩
    | exclude => exact ⟨_, mem_conditions.2 (Or.inr (Or.inr ⟨key, hkey, rfl⟩))⟩
  obtain ⟨condition, hcondition⟩ := hcondition
  exact List.ne_nil_of_mem hcondition

/-- The tree of the rule that selections ask for. -/
def tree (selections : List Selection) : Expr :=
  Expr.group Operator.and.node (conditions selections)

theorem expression_of_ne_nil (h : selections ≠ []) :
    expression selections = toString (tree selections) := by
  rw [expression]
  split
  · next hnil => exact absurd hnil (conditions_ne_nil h)
  · rfl

theorem branching_tree (h : selections ≠ []) : (tree selections).Branching := by
  apply Expr.branching_group .and (conditions_ne_nil h)
  intro condition hcondition
  obtain ⟨test, rfl | rfl⟩ := exists_test_of_mem_conditions hcondition
  · exact .atom test
  · exact .not (.atom test)

/-- The selected keys by mode, those of each mode in the order of the selections. -/
def selectedKeys (selections : List Selection) : List String :=
  keysOf .mustHaveAll selections ++ keysOf .anyOf selections ++ keysOf .exclude selections

theorem selectedKeys_subset : selectedKeys selections ⊆ selections.map Selection.key := by
  intro key hkey
  rw [selectedKeys, List.mem_append, List.mem_append, mem_keysOf, mem_keysOf, mem_keysOf] at hkey
  rcases hkey with (hmem | hmem) | hmem
  · exact List.mem_map_of_mem hmem
  · exact List.mem_map_of_mem hmem
  · exact List.mem_map_of_mem hmem

theorem flatMap_keys_testOver {test : List String → Atom} (htest : ∀ keys, (test keys).keys = keys)
    (keys : List String) : (testOver test keys).flatMap Expr.keys = keys := by
  cases keys with
  | nil => rfl
  | cons key rest =>
    change [Expr.atom (test (key :: rest))].flatMap Expr.keys = key :: rest
    rw [List.flatMap_singleton, Expr.keys_atom, htest]

/-- The rule names the selected keys, one by one. -/
theorem keys_tree : (tree selections).keys = selectedKeys selections := by
  have hexcluded : ∀ key, (Expr.not (.atom (.has key))).keys = [key] :=
    fun key => (Expr.keys_not _).trans (Expr.keys_atom _)
  rw [tree, Expr.keys_group, conditions, List.flatMap_append, List.flatMap_append,
    flatMap_keys_testOver (fun _ => rfl), flatMap_keys_testOver (fun _ => rfl), List.flatMap_map,
    funext hexcluded, List.flatMap_singleton', selectedKeys]

theorem keys_tree_subset : (tree selections).keys ⊆ selections.map Selection.key := by
  rw [keys_tree]
  exact selectedKeys_subset

/-- Only `!` nests in the text of the rule, and it does so once. -/
theorem depth_tree_le : (tree selections).depth ≤ 1 := by
  apply Expr.depth_group_le
  intro condition hcondition
  obtain ⟨test, rfl | rfl⟩ := exists_test_of_mem_conditions hcondition
  · exact Nat.zero_le 1
  · exact Nat.le_refl 1

/-- All conditions hold of a tag set exactly where the set is as the selections ask. -/
theorem all_holds_conditions :
    (∀ condition ∈ conditions selections, condition.holds tags = true) ↔
      (∀ key, ⟨key, .mustHaveAll⟩ ∈ selections → key ∈ tags) ∧
      ((∃ key, ⟨key, .anyOf⟩ ∈ selections) → ∃ key, ⟨key, .anyOf⟩ ∈ selections ∧ key ∈ tags) ∧
      ∀ key, ⟨key, .exclude⟩ ∈ selections → key ∉ tags := by
  constructor
  · intro h
    refine ⟨?_, ?_, ?_⟩
    · intro key hkey
      have hmem := mem_keysOf.2 hkey
      have htest := h _ (mem_conditions.2 (Or.inl ⟨List.ne_nil_of_mem hmem, rfl⟩))
      rw [Expr.holds_atom, Atom.holds, List.all_eq_true] at htest
      exact TagSet.contains_iff.1 (htest key hmem)
    · rintro ⟨key, hkey⟩
      have hne := List.ne_nil_of_mem (mem_keysOf.2 hkey)
      have htest := h _ (mem_conditions.2 (Or.inr (Or.inl ⟨hne, rfl⟩)))
      rw [Expr.holds_atom, Atom.holds, List.any_eq_true] at htest
      obtain ⟨other, hother, hholds⟩ := htest
      exact ⟨other, mem_keysOf.1 hother, TagSet.contains_iff.1 hholds⟩
    · intro key hkey hheld
      have htest := h _ (mem_conditions.2 (Or.inr (Or.inr ⟨key, mem_keysOf.2 hkey, rfl⟩)))
      rw [Expr.holds_not, Expr.holds_atom, Atom.holds, TagSet.contains_iff.2 hheld] at htest
      cases htest
  · rintro ⟨hall, hany, hnone⟩ condition hcondition
    rcases mem_conditions.1 hcondition with ⟨-, rfl⟩ | ⟨hne, rfl⟩ | ⟨key, hkey, rfl⟩
    · rw [Expr.holds_atom, Atom.holds, List.all_eq_true]
      intro key hkey
      exact TagSet.contains_iff.2 (hall key (mem_keysOf.1 hkey))
    · obtain ⟨key, hkey⟩ := List.exists_mem_of_ne_nil _ hne
      obtain ⟨other, hother, hheld⟩ := hany ⟨key, mem_keysOf.1 hkey⟩
      rw [Expr.holds_atom, Atom.holds, List.any_eq_true]
      exact ⟨other, mem_keysOf.2 hother, TagSet.contains_iff.2 hheld⟩
    · have hmissing : tags.contains key = false := by
        rw [Bool.eq_false_iff, ne_eq, TagSet.contains_iff]
        exact hnone key (mem_keysOf.1 hkey)
      rw [Expr.holds_not, Expr.holds_atom, Atom.holds, hmissing]
      rfl

theorem holds_tree_iff : (tree selections).holds tags = true ↔
    ∀ condition ∈ conditions selections, condition.holds tags = true := by
  rw [tree, Expr.holds_group, Operator.verdict, List.all_map, List.all_eq_true]
  rfl

/-- A synthesised rule is read wherever one level of nesting and its own length are allowed,
and it holds of exactly those tag sets that are as the selections ask. -/
theorem parse_expression {limits : Limits} (hne : selections ≠ [])
    (hkeys : Quotable (selections.map Selection.key)) (hdepth : 1 ≤ limits.maxDepth)
    (hlength : byteSize (expression selections).toList ≤ limits.maxLength) :
    ∃ rule, Rule.parse limits (expression selections) = .ok rule ∧
      ∀ tags, rule.holds tags = true ↔
        (∀ key, ⟨key, .mustHaveAll⟩ ∈ selections → key ∈ tags) ∧
        ((∃ key, ⟨key, .anyOf⟩ ∈ selections) →
          ∃ key, ⟨key, .anyOf⟩ ∈ selections ∧ key ∈ tags) ∧
        ∀ key, ⟨key, .exclude⟩ ∈ selections → key ∉ tags := by
  have hquotable : Quotable (tree selections).keys :=
    fun key hkey => hkeys key (keys_tree_subset hkey)
  have htext : (toString (tree selections)).toList = (tree selections).text := String.toList_ofList
  rw [expression_of_ne_nil hne] at hlength ⊢
  rw [htext] at hlength
  refine ⟨_, Rule.parse_toString (branching_tree hne) hquotable hlength
    (Nat.le_trans depth_tree_le hdepth), ?_⟩
  intro tags
  rw [Rule.holds, Expr.holds_flatten, holds_tree_iff, all_holds_conditions]

/-- The keys may hold operators, brackets, blanks and single quotes, and be empty or repeated.
The text is as long as the limits allow. -/
theorem parse_expression_of_odd_keys :
    let selections : List Selection := [⟨"a', 'b", .anyOf⟩, ⟨"&& (", .mustHaveAll⟩, ⟨"", .anyOf⟩,
      ⟨"]", .exclude⟩, ⟨"&& (", .mustHaveAll⟩]
    let limits : Limits := ⟨1, 79⟩
    selections ≠ [] ∧ Quotable (selections.map Selection.key) ∧ 1 ≤ limits.maxDepth ∧
      byteSize (expression selections).toList ≤ limits.maxLength ∧
      ∃ rule, Rule.parse limits (expression selections) = .ok rule ∧
        rule.holds (.ofList ["&& (", ""]) = true ∧
        rule.holds (.ofList ["&& (", "", "]"]) = false := by
  intro selections limits
  have hne : selections ≠ [] := List.cons_ne_nil _ _
  have hkeys : Quotable (selections.map Selection.key) := by decide +kernel
  have hlength : byteSize (expression selections).toList ≤ limits.maxLength := by decide +kernel
  obtain ⟨rule, hparse, hholds⟩ := parse_expression hne hkeys (Nat.le_refl 1) hlength
  refine ⟨hne, hkeys, Nat.le_refl 1, hlength, rule, hparse, ?_, ?_⟩
  · rw [hholds]
    refine ⟨?_, fun _ => ⟨"", ?_⟩, ?_⟩
    · simp [selections]
    · simp [selections]
    · simp [selections]
  · rw [Bool.eq_false_iff, ne_eq, hholds]
    rintro ⟨-, -, hnone⟩
    exact hnone "]" (by simp [selections]) (by simp)

end Selection

end TagRules

import Mathlib.Data.List.Basic
import TagRules.Rule.Expr

/-!
Trees in general. A chain of either operator is one case of an induction, and a verdict
depends on no key that the tree does not name.
-/

namespace TagRules

/-- Every node that joins operands has at least two of them. -/
inductive Expr.Branching : Expr → Prop where
  | or {operands : List Expr} : 2 ≤ operands.length →
      (∀ operand ∈ operands, Branching operand) → Branching (.or operands)
  | and {operands : List Expr} : 2 ≤ operands.length →
      (∀ operand ∈ operands, Branching operand) → Branching (.and operands)
  | not {operand : Expr} : Branching operand → Branching (.not operand)
  | atom (test : Atom) : Branching (.atom test)

/-- The node that joins the operands of a chain of one operator. -/
def Operator.node : Operator → List Expr → Expr
  | .and => .and
  | .or => .or

/-- The verdict of a chain, from those of its operands. -/
def Operator.verdict : Operator → List Bool → Bool
  | .and, verdicts => verdicts.all id
  | .or, verdicts => verdicts.any id

theorem ne_nil_of_two_le {α : Type} {parts : List α} (h : 2 ≤ parts.length) : parts ≠ [] := by
  rintro rfl
  simp at h

namespace Expr

def keys (tree : Expr) : List String :=
  tree.atoms.flatMap Atom.keys

/-- Both kinds of chain are one case, with what is known of every operand. -/
@[elab_as_elim]
theorem induction {motive : Expr → Prop}
    (node : ∀ (op : Operator) (operands : List Expr), (∀ operand ∈ operands, motive operand) →
      motive (op.node operands))
    (not : ∀ operand : Expr, motive operand → motive (.not operand))
    (atom : ∀ test : Atom, motive (.atom test)) : ∀ tree : Expr, motive tree
  | .or operands => node .or operands (fun operand _ => induction node not atom operand)
  | .and operands => node .and operands (fun operand _ => induction node not atom operand)
  | .not operand => not operand (induction node not atom operand)
  | .atom test => atom test

variable {op : Operator} {operands : List Expr} {tree : Expr}

theorem branching_node :
    (op.node operands).Branching ↔
      2 ≤ operands.length ∧ ∀ operand ∈ operands, operand.Branching := by
  constructor
  · intro h
    cases op with
    | and =>
      cases h with
      | and hlength hoperands => exact ⟨hlength, hoperands⟩
    | or =>
      cases h with
      | or hlength hoperands => exact ⟨hlength, hoperands⟩
  · rintro ⟨hlength, hoperands⟩
    cases op with
    | and => exact .and hlength hoperands
    | or => exact .or hlength hoperands

@[simp] theorem atoms_node (op : Operator) (operands : List Expr) :
    (op.node operands).atoms = operands.flatMap atoms := by
  cases op with
  | and => rw [Operator.node, atoms, atomsOfAll_eq]
  | or => rw [Operator.node, atoms, atomsOfAll_eq]

theorem keys_node (op : Operator) (operands : List Expr) :
    (op.node operands).keys = operands.flatMap keys := by
  rw [keys, atoms_node, List.flatMap_assoc]
  rfl

theorem keys_not (operand : Expr) : (not operand).keys = operand.keys :=
  rfl

theorem keys_atom (test : Atom) : (atom test).keys = test.keys :=
  List.flatMap_singleton _ _

theorem holds_node (tags : TagSet) (op : Operator) (operands : List Expr) :
    (op.node operands).holds tags = op.verdict (operands.map (holds tags)) := by
  cases op with
  | and =>
    rw [Operator.node, holds_and, Operator.verdict, List.all_map]
    rfl
  | or =>
    rw [Operator.node, holds_or, Operator.verdict, List.any_map]
    rfl

/-- A lone operand is the whole chain, and it has the same verdict as a chain of one. -/
theorem holds_group (tags : TagSet) (op : Operator) (operands : List Expr) :
    (group op.node operands).holds tags = op.verdict (operands.map (holds tags)) := by
  rcases operands with _ | ⟨operand, _ | ⟨next, rest⟩⟩
  · exact holds_node tags op []
  · cases op with
    | and => exact (Bool.and_true _).symm
    | or => exact (Bool.or_false _).symm
  · exact holds_node tags op (operand :: next :: rest)

theorem keys_group (op : Operator) (operands : List Expr) :
    (group op.node operands).keys = operands.flatMap keys := by
  rcases operands with _ | ⟨operand, _ | ⟨next, rest⟩⟩
  · exact keys_node op []
  · rw [List.flatMap_singleton]
    rfl
  · exact keys_node op (operand :: next :: rest)

theorem branching_group (op : Operator) (hne : operands ≠ [])
    (h : ∀ operand ∈ operands, operand.Branching) : (group op.node operands).Branching := by
  rcases operands with _ | ⟨operand, _ | ⟨next, rest⟩⟩
  · exact absurd rfl hne
  · exact h operand (by simp)
  · exact branching_node.2 ⟨by simp, h⟩

end Expr

theorem Atom.holds_congr {tags others : TagSet} {test : Atom}
    (h : ∀ key ∈ test.keys, tags.contains key = others.contains key) :
    test.holds tags = test.holds others := by
  cases test with
  | has key => exact h key (by simp [keys])
  | hasAny keys =>
    rw [holds, holds, Bool.eq_iff_iff, List.any_eq_true, List.any_eq_true]
    apply exists_congr
    intro key
    apply and_congr_right
    intro hkey
    rw [h key hkey]
  | hasAll keys =>
    rw [holds, holds, Bool.eq_iff_iff, List.all_eq_true, List.all_eq_true]
    apply forall₂_congr
    intro key hkey
    rw [h key hkey]

namespace Expr

/-- A verdict depends on no key that the tree does not name. -/
theorem holds_congr {tags others : TagSet} {tree : Expr}
    (h : ∀ key ∈ tree.keys, tags.contains key = others.contains key) :
    tree.holds tags = tree.holds others := by
  induction tree using Expr.induction with
  | node op operands ih =>
    rw [holds_node, holds_node]
    apply congrArg
    apply List.map_congr_left
    intro operand hoperand
    apply ih operand hoperand
    intro key hkey
    apply h key
    rw [keys_node]
    exact List.mem_flatMap.2 ⟨operand, hoperand, hkey⟩
  | not operand ih => rw [holds_not, holds_not, ih h]
  | atom test =>
    rw [keys_atom] at h
    rw [holds_atom, holds_atom, Atom.holds_congr h]

end Expr

end TagRules

import TagRules.Proofs.Grammar

/-!
Trees without a chain directly under a chain of the same operator. Flattening splices
such chains into each other. The spelling of a tree does not show the difference, and
neither do its tests, their order, its verdicts or the depth of its spelling.
-/

namespace TagRules

/-- Whether the spelling of a chain puts parentheses around an operand. -/
def Operator.encloses : Operator → Expr → Bool
  | .and, operand => operand.isOr
  | .or, _ => false

def Operator.spaced (op : Operator) : List Char :=
  ' ' :: op.symbol.toList ++ [' ']

namespace Expr

/-- What a tree adds to a chain of `op`: its operands where it is such a chain, and
otherwise itself. -/
def splice : Operator → Expr → List Expr
  | .or, or operands => operands
  | .and, and operands => operands
  | _, tree => [tree]

mutual

/-- The tree with every chain spliced into the chain of the same operator above it. -/
def flatten : Expr → Expr
  | or operands => or (flattenInto .or operands)
  | and operands => and (flattenInto .and operands)
  | not operand => not operand.flatten
  | atom test => atom test

def flattenInto (op : Operator) : List Expr → List Expr
  | [] => []
  | operand :: rest => operand.flatten.splice op ++ flattenInto op rest

end

mutual

/-- The greatest number of `!` and of pairs of parentheses around a test in the text of
a tree. -/
def depth : Expr → Nat
  | or operands => chainDepth .or operands
  | and operands => chainDepth .and operands
  | not operand => operand.depth + operand.isChain.toNat + 1
  | atom _ => 0

def chainDepth (op : Operator) : List Expr → Nat
  | [] => 0
  | operand :: rest => max (operand.depth + (op.encloses operand).toNat) (chainDepth op rest)

end

/-- No chain stands directly under a chain of the same operator. -/
inductive Flat : Expr → Prop where
  | or {operands : List Expr} : (∀ operand ∈ operands, Flat operand) →
      (∀ operand ∈ operands, ∀ inner, operand ≠ Expr.or inner) → Flat (.or operands)
  | and {operands : List Expr} : (∀ operand ∈ operands, Flat operand) →
      (∀ operand ∈ operands, ∀ inner, operand ≠ Expr.and inner) → Flat (.and operands)
  | not {operand : Expr} : Flat operand → Flat (.not operand)
  | atom (test : Atom) : Flat (.atom test)

variable {op : Operator} {operands : List Expr} {tree : Expr}

theorem flattenInto_eq (op : Operator) (operands : List Expr) :
    flattenInto op operands = operands.flatMap (fun operand => operand.flatten.splice op) := by
  induction operands with
  | nil => rfl
  | cons operand rest ih => rw [flattenInto, ih, List.flatMap_cons]

theorem flatten_node (op : Operator) (operands : List Expr) :
    (op.node operands).flatten =
      op.node (operands.flatMap (fun operand => operand.flatten.splice op)) := by
  rw [← flattenInto_eq]
  cases op <;> rfl

/-- The text of a tree as an operand of a chain. -/
def operandText (op : Operator) (operand : Expr) : List Char :=
  parenthesised (op.encloses operand) operand.text

def operandDepth (op : Operator) (operand : Expr) : Nat :=
  operand.depth + (op.encloses operand).toNat

theorem text_node (op : Operator) (operands : List Expr) :
    (op.node operands).text = op.spaced.intercalate (operands.map (operandText op)) := by
  cases op with
  | and =>
    rw [Operator.node, text, conjunctTexts_eq]
    rfl
  | or =>
    rw [Operator.node, text, alternativeTexts_eq]
    rfl

theorem chainDepth_eq (op : Operator) (operands : List Expr) :
    chainDepth op operands = (operands.map (operandDepth op)).foldr max 0 := by
  induction operands with
  | nil => rfl
  | cons operand rest ih =>
    rw [chainDepth, ih, List.map_cons, List.foldr_cons]
    rfl

theorem depth_node (op : Operator) (operands : List Expr) :
    (op.node operands).depth = (operands.map (operandDepth op)).foldr max 0 := by
  rw [← chainDepth_eq]
  cases op <;> rfl

theorem depth_group_le (op : Operator) {bound : Nat}
    (h : ∀ operand ∈ operands, operand.operandDepth op ≤ bound) :
    (group op.node operands).depth ≤ bound := by
  rcases operands with _ | ⟨operand, _ | ⟨next, rest⟩⟩
  · cases op <;> exact Nat.zero_le bound
  · exact Nat.le_trans (Nat.le_add_right _ _) (h operand (by simp))
  · change (op.node (operand :: next :: rest)).depth ≤ bound
    rw [depth_node, foldr_max_le_iff]
    intro depth hmem
    obtain ⟨operand, hoperand, rfl⟩ := List.mem_map.1 hmem
    exact h operand hoperand

@[simp] theorem splice_node (op : Operator) (operands : List Expr) :
    (op.node operands).splice op = operands := by
  cases op <;> rfl

theorem splice_of_ne (h : ∀ inner, tree ≠ op.node inner) : tree.splice op = [tree] := by
  cases op with
  | and =>
    cases tree with
    | and inner => exact absurd rfl (h inner)
    | or _ => rfl
    | not _ => rfl
    | atom _ => rfl
  | or =>
    cases tree with
    | or inner => exact absurd rfl (h inner)
    | and _ => rfl
    | not _ => rfl
    | atom _ => rfl

theorem node_or_ne (op : Operator) (tree : Expr) :
    (∃ inner, tree = op.node inner) ∨ ∀ inner, tree ≠ op.node inner := by
  by_cases h : ∃ inner, tree = op.node inner
  · exact Or.inl h
  · exact Or.inr (fun inner heq => h ⟨inner, heq⟩)

@[simp] theorem encloses_node (op : Operator) (operands : List Expr) :
    op.encloses (op.node operands) = false := by
  cases op <;> rfl

@[simp] theorem isOr_flatten (tree : Expr) : tree.flatten.isOr = tree.isOr := by
  cases tree <;> rfl

@[simp] theorem isChain_flatten (tree : Expr) : tree.flatten.isChain = tree.isChain := by
  cases tree <;> rfl

@[simp] theorem encloses_flatten (op : Operator) (tree : Expr) :
    op.encloses tree.flatten = op.encloses tree := by
  cases op with
  | and => exact isOr_flatten tree
  | or => rfl

theorem flat_node :
    (op.node operands).Flat ↔ (∀ operand ∈ operands, operand.Flat) ∧
      ∀ operand ∈ operands, ∀ inner, operand ≠ op.node inner := by
  constructor
  · intro h
    cases op with
    | and =>
      cases h with
      | and hoperands hne => exact ⟨hoperands, hne⟩
    | or =>
      cases h with
      | or hoperands hne => exact ⟨hoperands, hne⟩
  · rintro ⟨hoperands, hne⟩
    cases op with
    | and => exact .and hoperands hne
    | or => exact .or hoperands hne

theorem flat_flatten (tree : Expr) : tree.flatten.Flat := by
  induction tree using Expr.induction with
  | node op operands ih =>
    rw [flatten_node, flat_node, ← forall₂_and]
    intro part hpart
    obtain ⟨operand, hoperand, hmem⟩ := List.mem_flatMap.1 hpart
    have hflat := ih operand hoperand
    rcases node_or_ne op operand.flatten with ⟨inner, hinner⟩ | hne
    · rw [hinner, splice_node] at hmem
      rw [hinner, flat_node] at hflat
      exact ⟨hflat.1 part hmem, hflat.2 part hmem⟩
    · rw [splice_of_ne hne, List.mem_singleton] at hmem
      rw [hmem]
      exact ⟨hflat, hne⟩
  | not operand ih => exact .not ih
  | atom test => exact .atom test

theorem Branching.splice_ne_nil (h : tree.Branching) (op : Operator) : tree.splice op ≠ [] := by
  rcases node_or_ne op tree with ⟨inner, rfl⟩ | hne
  · rw [splice_node]
    exact ne_nil_of_two_le (branching_node.1 h).1
  · rw [splice_of_ne hne]
    exact List.cons_ne_nil _ _

theorem length_le_flatMap {α β : Type} {f : α → List β} {items : List α}
    (h : ∀ item ∈ items, f item ≠ []) : items.length ≤ (items.flatMap f).length := by
  induction items with
  | nil => exact Nat.le_refl _
  | cons item rest ih =>
    have hitem : 0 < (f item).length := List.length_pos_iff.2 (h item (by simp))
    have hrest := ih (fun other hother => h other (by simp [hother]))
    rw [List.flatMap_cons, List.length_append, List.length_cons]
    omega

theorem Branching.flatten (h : tree.Branching) : tree.flatten.Branching := by
  induction tree using Expr.induction with
  | node op operands ih =>
    obtain ⟨hlength, hoperands⟩ := branching_node.1 h
    have hflatten := fun operand hoperand => ih operand hoperand (hoperands operand hoperand)
    have hle := length_le_flatMap
      (fun operand hoperand => (hflatten operand hoperand).splice_ne_nil op)
    rw [flatten_node, branching_node]
    refine ⟨Nat.le_trans hlength hle, ?_⟩
    intro part hpart
    obtain ⟨operand, hoperand, hmem⟩ := List.mem_flatMap.1 hpart
    have hbranching := hflatten operand hoperand
    rcases node_or_ne op operand.flatten with ⟨inner, hinner⟩ | hne
    · rw [hinner, splice_node] at hmem
      rw [hinner, branching_node] at hbranching
      exact hbranching.2 part hmem
    · rw [splice_of_ne hne, List.mem_singleton] at hmem
      rw [hmem]
      exact hbranching
  | not operand ih =>
    cases h with
    | not hoperand => exact .not (ih hoperand)
  | atom test => exact .atom test

theorem flatMap_atoms_splice (op : Operator) (tree : Expr) :
    (tree.splice op).flatMap atoms = tree.atoms := by
  rcases node_or_ne op tree with ⟨inner, rfl⟩ | hne
  · rw [splice_node, atoms_node]
  · rw [splice_of_ne hne, List.flatMap_singleton]

@[simp] theorem atoms_flatten (tree : Expr) : tree.flatten.atoms = tree.atoms := by
  induction tree using Expr.induction with
  | node op operands ih =>
    rw [flatten_node, atoms_node, atoms_node, List.flatMap_assoc]
    apply List.flatMap_congr
    intro operand hoperand
    rw [flatMap_atoms_splice, ih operand hoperand]
  | not operand ih => exact ih
  | atom test => rfl

@[simp] theorem keys_flatten (tree : Expr) : tree.flatten.keys = tree.keys := by
  rw [keys, atoms_flatten, keys]

theorem verdict_splice (tags : TagSet) (op : Operator) (tree : Expr) :
    op.verdict ((tree.splice op).map (holds tags)) = tree.holds tags := by
  rcases node_or_ne op tree with ⟨inner, rfl⟩ | hne
  · rw [splice_node, holds_node]
  · rw [splice_of_ne hne]
    cases op with
    | and => exact Bool.and_true _
    | or => exact Bool.or_false _

theorem verdict_flatMap {α : Type} (op : Operator) (f : α → List Bool) (items : List α) :
    op.verdict (items.flatMap f) = op.verdict (items.map (fun item => op.verdict (f item))) := by
  cases op with
  | and => simp [Operator.verdict]
  | or => simp [Operator.verdict]

/-- Flattening keeps every verdict. -/
@[simp] theorem holds_flatten (tags : TagSet) (tree : Expr) :
    tree.flatten.holds tags = tree.holds tags := by
  induction tree using Expr.induction with
  | node op operands ih =>
    rw [flatten_node, holds_node, holds_node, List.map_flatMap, verdict_flatMap]
    apply congrArg
    apply List.map_congr_left
    intro operand hoperand
    rw [verdict_splice, ih operand hoperand]
  | not operand ih => rw [flatten, holds_not, holds_not, ih]
  | atom test => rfl

theorem foldr_max_append (front back : List Nat) :
    (front ++ back).foldr max 0 = max (front.foldr max 0) (back.foldr max 0) := by
  induction front with
  | nil => simp
  | cons bound rest ih => rw [List.cons_append, List.foldr_cons, List.foldr_cons, ih, Nat.max_assoc]

theorem foldr_max_flatMap {α : Type} (f : α → List Nat) (items : List α) :
    (items.flatMap f).foldr max 0 = (items.map (fun item => (f item).foldr max 0)).foldr max 0 := by
  induction items with
  | nil => rfl
  | cons item rest ih =>
    rw [List.flatMap_cons, foldr_max_append, ih, List.map_cons, List.foldr_cons]

theorem depth_splice (op : Operator) (tree : Expr) :
    ((tree.splice op).map (operandDepth op)).foldr max 0 = tree.operandDepth op := by
  rcases node_or_ne op tree with ⟨inner, rfl⟩ | hne
  · rw [splice_node, operandDepth, encloses_node, depth_node]
    rfl
  · rw [splice_of_ne hne]
    exact Nat.max_zero _

@[simp] theorem depth_flatten (tree : Expr) : tree.flatten.depth = tree.depth := by
  induction tree using Expr.induction with
  | node op operands ih =>
    rw [flatten_node, depth_node, depth_node, List.map_flatMap, foldr_max_flatMap]
    apply congrArg (List.foldr max 0)
    apply List.map_congr_left
    intro operand hoperand
    rw [depth_splice, operandDepth, operandDepth, encloses_flatten, ih operand hoperand]
  | not operand ih => rw [flatten, depth, depth, ih, isChain_flatten]
  | atom test => rfl

theorem text_splice (op : Operator) (tree : Expr) :
    op.spaced.intercalate ((tree.splice op).map (operandText op)) = tree.operandText op := by
  rcases node_or_ne op tree with ⟨inner, rfl⟩ | hne
  · rw [splice_node, operandText, encloses_node, text_node]
    rfl
  · rw [splice_of_ne hne]
    exact List.intercalate_singleton

theorem intercalate_append {separator : List Char} {front back : List (List Char)}
    (hfront : front ≠ []) (hback : back ≠ []) :
    separator.intercalate (front ++ back) =
      separator.intercalate front ++ separator ++ separator.intercalate back := by
  induction front with
  | nil => exact absurd rfl hfront
  | cons text rest ih =>
    by_cases hrest : rest = []
    · subst hrest
      rw [List.singleton_append, List.intercalate_cons_of_ne_nil hback, List.intercalate_singleton]
    · have hne : rest ++ back ≠ [] := by simp [hrest]
      rw [List.cons_append, List.intercalate_cons_of_ne_nil hne, ih hrest,
        List.intercalate_cons_of_ne_nil hrest]
      simp only [List.append_assoc]

theorem intercalate_flatMap {α : Type} {separator : List Char} {f : α → List (List Char)}
    {items : List α} (h : ∀ item ∈ items, f item ≠ []) :
    separator.intercalate (items.flatMap f) =
      separator.intercalate (items.map (fun item => separator.intercalate (f item))) := by
  induction items with
  | nil => rfl
  | cons item rest ih =>
    have hitem := h item (by simp)
    have hothers : ∀ other ∈ rest, f other ≠ [] := fun other hother => h other (by simp [hother])
    by_cases hrest : rest = []
    · subst hrest
      rw [List.flatMap_singleton, List.map_singleton, List.intercalate_singleton]
    · have htail : rest.flatMap f ≠ [] := by
        have hle := length_le_flatMap hothers
        have hpos := List.length_pos_iff.2 hrest
        rw [← List.length_pos_iff]
        omega
      have hmap : rest.map (fun item => separator.intercalate (f item)) ≠ [] := by simpa using hrest
      rw [List.flatMap_cons, intercalate_append hitem htail, ih hothers, List.map_cons,
        List.intercalate_cons_of_ne_nil hmap]

/-- Flattening is not seen in the text. The hypothesis keeps out chains without operands,
which would leave a stray operator. -/
theorem Branching.text_flatten (h : tree.Branching) : tree.flatten.text = tree.text := by
  induction tree using Expr.induction with
  | node op operands ih =>
    obtain ⟨-, hoperands⟩ := branching_node.1 h
    have hne : ∀ operand ∈ operands,
        (operand.flatten.splice op).map (operandText op) ≠ [] := by
      intro operand hoperand
      simpa using (hoperands operand hoperand).flatten.splice_ne_nil op
    -- A chain that is spliced had no parentheses, so its separators are those of the whole.
    rw [flatten_node, text_node, text_node, List.map_flatMap, intercalate_flatMap hne]
    apply congrArg
    apply List.map_congr_left
    intro operand hoperand
    rw [text_splice, operandText, operandText, encloses_flatten,
      ih operand hoperand (hoperands operand hoperand)]
  | not operand ih =>
    cases h with
    | not hoperand => rw [Expr.flatten, text, text, ih hoperand, isChain_flatten]
  | atom test => rfl

end Expr

end TagRules

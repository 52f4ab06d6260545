import TagRules.Proofs.Flattening
import TagRules.Proofs.Reading

/-!
How high the tree of a text is. A level of nesting puts at most a chain of each operator on
the way down to a test, or a `!`, so the limit on nesting bounds the height of the tree, however
long the text is. A recursion over a tree has one call open for each node above the one that it
is at, and so the height is also the number of calls that it nests.
-/

namespace TagRules

open Text (byteSize)

namespace Expr

mutual

/-- One more than the height of the highest operand; a test has the height 1. -/
def height : Expr → Nat
  | or operands => greatestHeight operands + 1
  | and operands => greatestHeight operands + 1
  | not operand => operand.height + 1
  | atom _ => 1

def greatestHeight : List Expr → Nat
  | [] => 0
  | operand :: rest => max operand.height (greatestHeight rest)

end

/-- What a node joins or negates; a test has nothing below it. -/
def children : Expr → List Expr
  | or operands => operands
  | and operands => operands
  | not operand => [operand]
  | atom _ => []

def isNot : Expr → Bool
  | not _ => true
  | _ => false

/-- The nodes on a way down from the top of a tree, the top included. -/
inductive Path : Expr → List Expr → Prop where
  | top (tree : Expr) : Path tree [tree]
  | down {tree child : Expr} {path : List Expr} :
      child ∈ tree.children → Path child path → Path tree (tree :: path)

variable {op : Operator} {operands : List Expr}

theorem greatestHeight_eq (operands : List Expr) :
    greatestHeight operands = (operands.map height).foldr max 0 := by
  induction operands with
  | nil => rfl
  | cons operand rest ih => rw [greatestHeight, ih, List.map_cons, List.foldr_cons]

theorem height_node (op : Operator) (operands : List Expr) :
    (op.node operands).height = (operands.map height).foldr max 0 + 1 := by
  rw [← greatestHeight_eq]
  cases op <;> rfl

theorem height_node_le_iff {bound : Nat} :
    (op.node operands).height ≤ bound + 1 ↔ ∀ operand ∈ operands, operand.height ≤ bound := by
  rw [height_node, Nat.add_le_add_iff_right, foldr_max_le_iff, List.forall_mem_map]

theorem height_pos (tree : Expr) : 0 < tree.height := by
  cases tree <;> exact Nat.succ_pos _

@[simp] theorem children_node (op : Operator) (operands : List Expr) :
    (op.node operands).children = operands := by
  cases op <;> rfl

@[simp] theorem isNot_node (op : Operator) (operands : List Expr) :
    (op.node operands).isNot = false := by
  cases op <;> rfl

/-- A bound for the ways down from the children holds for the whole tree, up to the `!` at its
top. -/
theorem Path.countP_isNot_le {tree : Expr} {path : List Expr} {bound : Nat} (h : tree.Path path)
    (hbelow : ∀ child ∈ tree.children, ∀ path, child.Path path → path.countP isNot ≤ bound) :
    path.countP isNot ≤ bound + tree.isNot.toNat := by
  have htop : [tree].countP isNot = tree.isNot.toNat := by
    cases htree : tree.isNot <;> simp [htree]
  cases h with
  | top => omega
  | @down _ child path hchild hpath =>
    have hle := hbelow child hchild path hpath
    rw [← List.singleton_append, List.countP_append]
    omega

end Expr

/-- How much higher than two nodes for each level of nesting the tree of a text may be: the test
itself, and the chains that are around it without any parentheses. -/
def Nonterminal.spare : Nonterminal → Nat
  | .operand => 1
  | .conjunct => 2
  | .chain => 3

theorem Operator.spare_whole (op : Operator) : op.whole.spare = op.part.spare + 1 := by
  cases op <;> rfl

namespace Phrase

variable {op : Operator} {parts : List Phrase}

theorem depth_le_joined (op : Operator) {part : Phrase} (h : part ∈ parts) :
    part.depth ≤ (joined op parts).depth :=
  depth_joined_le_iff.1 (Nat.le_refl _) part h

theorem height_joined_le (op : Operator)
    (h : ∀ part ∈ parts, part.tree.height ≤ 2 * part.depth + op.part.spare) :
    (joined op parts).tree.height ≤ 2 * (joined op parts).depth + op.whole.spare := by
  rw [op.spare_whole, ← Nat.add_assoc]
  apply Expr.height_node_le_iff.2
  rw [List.forall_mem_map]
  intro part hpart
  have hheight := h part hpart
  have hdepth := depth_le_joined op hpart
  omega

theorem countP_isNot_joined_le {path : List Expr} (hpath : (joined op parts).tree.Path path)
    (h : ∀ part ∈ parts, ∀ path, part.tree.Path path → path.countP Expr.isNot ≤ part.depth) :
    path.countP Expr.isNot ≤ (joined op parts).depth := by
  have hbelow : ∀ child ∈ (joined op parts).tree.children, ∀ path, child.Path path →
      path.countP Expr.isNot ≤ (joined op parts).depth := by
    intro child hchild path hpath
    rw [joined, Expr.children_node] at hchild
    obtain ⟨part, hpart, rfl⟩ := List.mem_map.1 hchild
    exact Nat.le_trans (h part hpart path hpath) (depth_le_joined op hpart)
  have hle := hpath.countP_isNot_le hbelow
  have htop : (joined op parts).tree.isNot = false := Expr.isNot_node op _
  rwa [htop] at hle

end Phrase

/-- A level of nesting adds two to the height. Each nonterminal has a bound of its own, so that one
induction carries the bounds of operands and of chains together. -/
theorem Derives.height_le {nonterminal : Nonterminal} {phrase : Phrase}
    (h : Derives nonterminal phrase) :
    phrase.tree.height ≤ 2 * phrase.depth + nonterminal.spare := by
  induction h with
  | test _ => exact Nat.le_refl 1
  | @negated phrase _ ih =>
    -- The `!` takes up one node of the two, and the operand has no chain around it.
    change phrase.tree.height + 1 ≤ 2 * (phrase.depth + 1) + 1
    change phrase.tree.height ≤ 2 * phrase.depth + 1 at ih
    omega
  | @enclosed phrase _ ih =>
    -- The parentheses add no node, and the level that they take makes room for both chains.
    change phrase.tree.height ≤ 2 * (phrase.depth + 1) + 1
    change phrase.tree.height ≤ 2 * phrase.depth + 3 at ih
    omega
  | operand _ ih => exact Nat.le_succ_of_le ih
  | conjunction _ _ ih => exact Phrase.height_joined_le .and ih
  | conjunct _ ih => exact Nat.le_succ_of_le ih
  | alternatives _ _ ih => exact Phrase.height_joined_le .or ih
  | padded _ _ _ ih => exact ih

theorem Derives.countP_isNot_le {nonterminal : Nonterminal} {phrase : Phrase}
    (h : Derives nonterminal phrase) {path : List Expr} (hpath : phrase.tree.Path path) :
    path.countP Expr.isNot ≤ phrase.depth := by
  induction h generalizing path with
  | test _ =>
    apply hpath.countP_isNot_le
    intro child hchild
    cases hchild
  | @negated phrase _ ih =>
    apply hpath.countP_isNot_le
    intro child hchild path hpath
    rw [List.mem_singleton.1 hchild] at hpath
    exact ih hpath
  | enclosed _ ih => exact Nat.le_succ_of_le (ih hpath)
  | operand _ ih => exact ih hpath
  | conjunction _ _ ih =>
    exact Phrase.countP_isNot_joined_le hpath (fun part hpart _ => ih part hpart)
  | conjunct _ ih => exact ih hpath
  | alternatives _ _ ih =>
    exact Phrase.countP_isNot_joined_le hpath (fun part hpart _ => ih part hpart)
  | padded _ _ _ ih => exact ih hpath

/-- A function on trees that calls itself on the operands of a node, and what it makes of the
node and of the results for these. -/
structure Recursion (α : Type) where
  chain : Operator → List Expr → List α → α
  not : Expr → α → α
  atom : Atom → α

namespace Recursion

variable {α : Type}

/-- The result for a tree where so many calls may be open at a time, if these are enough. -/
def within (recursion : Recursion α) : Nat → Expr → Option α
  | 0, _ => none
  | calls + 1, .or operands =>
    (operands.mapM (recursion.within calls)).map (recursion.chain .or operands)
  | calls + 1, .and operands =>
    (operands.mapM (recursion.within calls)).map (recursion.chain .and operands)
  | calls + 1, .not operand => (recursion.within calls operand).map (recursion.not operand)
  | _ + 1, .atom test => some (recursion.atom test)

/-- The function that the recursion computes where no number of calls bounds it. -/
structure Computes (recursion : Recursion α) (f : Expr → α) : Prop where
  chain (op : Operator) (operands : List Expr) :
    f (op.node operands) = recursion.chain op operands (operands.map f)
  not (operand : Expr) : f (.not operand) = recursion.not operand (f operand)
  atom (test : Atom) : f (.atom test) = recursion.atom test

variable {recursion : Recursion α} {f : Expr → α} {calls : Nat}

theorem within_node (op : Operator) (operands : List Expr) :
    recursion.within (calls + 1) (op.node operands) =
      (operands.mapM (recursion.within calls)).map (recursion.chain op operands) := by
  cases op <;> rfl

theorem mapM_within {operands : List Expr}
    (h : ∀ operand ∈ operands, recursion.within calls operand =
      if operand.height ≤ calls then some (f operand) else none) :
    operands.mapM (recursion.within calls) =
      if ∀ operand ∈ operands, operand.height ≤ calls then some (operands.map f) else none := by
  induction operands with
  | nil => rfl
  | cons operand rest ih =>
    have hrest := ih (fun other hother => h other (by simp [hother]))
    rw [List.mapM_cons, h operand (by simp), hrest]
    simp only [List.forall_mem_cons]
    by_cases hfirst : operand.height ≤ calls
    · by_cases hothers : ∀ other ∈ rest, other.height ≤ calls
      · rw [if_pos hfirst, if_pos hothers, if_pos ⟨hfirst, hothers⟩]
        rfl
      · have hnone : ¬(operand.height ≤ calls ∧ ∀ other ∈ rest, other.height ≤ calls) :=
          fun hall => hothers hall.2
        rw [if_pos hfirst, if_neg hothers, if_neg hnone]
        rfl
    · have hnone : ¬(operand.height ≤ calls ∧ ∀ other ∈ rest, other.height ≤ calls) :=
        fun hall => hfirst hall.1
      rw [if_neg hfirst, if_neg hnone]
      rfl

/-- A recursion nests exactly as many calls as the tree is high. -/
theorem Computes.within_eq (h : recursion.Computes f) (calls : Nat) (tree : Expr) :
    recursion.within calls tree = if tree.height ≤ calls then some (f tree) else none := by
  induction calls generalizing tree with
  | zero => rw [if_neg (Nat.not_le.2 tree.height_pos), within]
  | succ calls ih =>
    induction tree using Expr.induction with
    | node op operands _ =>
      rw [within_node, mapM_within (fun operand _ => ih operand), h.chain]
      simp only [Expr.height_node_le_iff]
      split <;> rfl
    | not operand _ =>
      rw [within, ih operand, h.not]
      simp only [Expr.height, Nat.add_le_add_iff_right]
      split <;> rfl
    | atom test =>
      have henough : (Expr.atom test).height ≤ calls + 1 := Nat.le_add_left 1 calls
      rw [within, h.atom, if_pos henough]

/-- The verdict of a tree. One that skips the operands behind a decisive one makes some of these
calls, and no others. -/
def verdict (tags : TagSet) : Recursion Bool where
  chain op _ verdicts := op.verdict verdicts
  not _ verdict := !verdict
  atom := Atom.holds tags

def tests : Recursion (List Atom) where
  chain _ _ tests := tests.flatten
  not _ tests := tests
  atom test := [test]

def spelling : Recursion (List Char) where
  chain op operands texts := op.spaced.intercalate
    (List.zipWith (fun operand text => Expr.parenthesised (op.encloses operand) text)
      operands texts)
  not operand text := '!' :: Expr.parenthesised operand.isChain text
  atom := Atom.text

theorem computes_holds (tags : TagSet) : (verdict tags).Computes (Expr.holds tags) where
  chain := Expr.holds_node tags
  not := Expr.holds_not tags
  atom := Expr.holds_atom tags

theorem computes_atoms : tests.Computes Expr.atoms where
  chain op operands := by rw [Expr.atoms_node, List.flatMap_def]; rfl
  not _ := rfl
  atom _ := rfl

theorem computes_text : spelling.Computes Expr.text where
  chain op operands := by
    simp only [spelling, Expr.text_node, List.zipWith_map_right, List.zipWith_self]
    rfl
  not _ := rfl
  atom _ := rfl

end Recursion

/-- The limit on nesting bounds the tree of every accepted text, whatever its length: its height,
the number of `!` on a way down, and how many calls the recursions over it nest. -/
theorem Rule.tree_bounded_of_parse {limits : Limits} {source : String} {rule : Rule}
    (h : parse limits source = .ok rule) :
    rule.tree.height ≤ 2 * limits.maxDepth + 3 ∧
    (∀ path, rule.tree.Path path → path.countP Expr.isNot ≤ limits.maxDepth) ∧
    ∀ calls, 2 * limits.maxDepth + 3 ≤ calls →
      (∀ tags, (Recursion.verdict tags).within calls rule.tree = some (rule.tree.holds tags)) ∧
      Recursion.tests.within calls rule.tree = some rule.tree.atoms ∧
      Recursion.spelling.within calls rule.tree = some rule.tree.text := by
  obtain ⟨-, htree⟩ := parse_eq_ok_iff.1 h
  obtain ⟨-, tests, depth, hdepth, hderives⟩ := Expr.parse_eq_ok_iff.1 htree
  have hheight : rule.tree.height ≤ 2 * limits.maxDepth + 3 := by
    have hle : rule.tree.height ≤ 2 * depth + 3 := hderives.height_le
    omega
  refine ⟨hheight, ?_, ?_⟩
  · intro path hpath
    exact Nat.le_trans (hderives.countP_isNot_le hpath) hdepth
  · intro calls hcalls
    have henough : rule.tree.height ≤ calls := Nat.le_trans hheight hcalls
    refine ⟨fun tags => ?_, ?_, ?_⟩
    · rw [(Recursion.computes_holds tags).within_eq, if_pos henough]
    · rw [Recursion.computes_atoms.within_eq, if_pos henough]
    · rw [Recursion.computes_text.within_eq, if_pos henough]

/-- Both bounds are met at once under a limit of one level, by a chain of each operator inside and
outside of the parentheses. -/
theorem Rule.tree_bounded_of_tall_text :
    let source :=
      "(scope.has('a')&&scope.has('b')||scope.has('c'))&&!scope.has('d')||scope.has('e')"
    let negated : Expr := .not (.atom (.has "d"))
    let conjunct : Expr := .and
      [.or [.and [.atom (.has "a"), .atom (.has "b")], .atom (.has "c")], negated]
    let rule : Rule := ⟨source, .or [conjunct, .atom (.has "e")]⟩
    let path := [rule.tree, conjunct, negated]
    parse ⟨1, 100⟩ source = .ok rule ∧
      (rule.tree.height ≤ 2 * 1 + 3 ∧ rule.tree.height = 5) ∧
      (rule.tree.Path path ∧ path.countP Expr.isNot ≤ 1 ∧ path.countP Expr.isNot = 1) ∧
      2 * 1 + 3 ≤ 5 ∧ Recursion.spelling.within 5 rule.tree = some rule.tree.text ∧
      Recursion.spelling.within 4 rule.tree = none := by
  intro source negated conjunct rule path
  have hparse : parse ⟨1, 100⟩ source = .ok rule := Outcomes.eq_ok_of_toOption (by decide +kernel)
  have hpath : rule.tree.Path path := .down (by decide) (.down (by decide) (.top _))
  obtain ⟨hheight, hnegations, hcalls⟩ := tree_bounded_of_parse hparse
  obtain ⟨-, -, htext⟩ := hcalls 5 (Nat.le_refl _)
  exact ⟨hparse, ⟨hheight, by decide⟩, ⟨hpath, hnegations path hpath, by decide⟩, by decide, htext,
    by decide +kernel⟩

namespace Derives

theorem exists_test :
    ∃ phrase, Derives .operand phrase ∧ phrase.depth = 0 ∧ phrase.tree.height = 1 :=
  ⟨⟨"scope.has('a')".toList, .atom (.has "a"), [.has "a"], 0⟩,
    .test (Outcomes.eq_ok_of_toOption (by decide +kernel)), rfl, rfl⟩

/-- An operand in a conjunction that is one of several alternatives stands two nodes further
down. -/
theorem exists_higher {phrase : Phrase} (h : Derives .operand phrase) :
    ∃ whole, Derives .chain whole ∧ whole.depth = phrase.depth ∧
      whole.tree.height = phrase.tree.height + 2 := by
  obtain ⟨test, htest, hdepth, hheight⟩ := exists_test
  have hconjunct : Derives .conjunct (.joined .and [phrase, test]) := by
    refine .conjunction (by simp) ?_
    simp only [List.forall_mem_cons]
    exact ⟨h, htest, by simp⟩
  have hwhole : Derives .chain (.joined .or [.joined .and [phrase, test], test]) := by
    refine .alternatives (by simp) ?_
    simp only [List.forall_mem_cons]
    exact ⟨hconjunct, .operand htest, by simp⟩
  have hpos := phrase.tree.height_pos
  refine ⟨_, hwhole, ?_, ?_⟩
  · simp [Phrase.joined, hdepth]
  · simp [Phrase.joined, Expr.height_node, hheight]
    omega

theorem exists_highest (depth : Nat) :
    ∃ phrase, Derives .chain phrase ∧ phrase.depth = depth ∧
      phrase.tree.height = 2 * depth + 3 := by
  induction depth with
  | zero =>
    obtain ⟨test, htest, hdepth, hheight⟩ := exists_test
    obtain ⟨whole, hwhole, hsame, hhigher⟩ := htest.exists_higher
    exact ⟨whole, hwhole, by omega, by omega⟩
  | succ depth ih =>
    obtain ⟨phrase, hphrase, hdepth, hheight⟩ := ih
    obtain ⟨whole, hwhole, hsame, hhigher⟩ := hphrase.enclosed.exists_higher
    change whole.depth = phrase.depth + 1 at hsame
    change whole.tree.height = phrase.tree.height + 2 at hhigher
    exact ⟨whole, hwhole, by omega, by omega⟩

theorem exists_most_negated (depth : Nat) :
    ∃ phrase path, Derives .operand phrase ∧ phrase.depth = depth ∧ phrase.tree.Path path ∧
      path.countP Expr.isNot = depth := by
  induction depth with
  | zero =>
    obtain ⟨test, htest, hdepth, -⟩ := exists_test
    have hle := htest.countP_isNot_le (.top test.tree)
    exact ⟨test, _, htest, hdepth, .top _, by omega⟩
  | succ depth ih =>
    obtain ⟨phrase, path, hphrase, hdepth, hpath, hcount⟩ := ih
    refine ⟨phrase.negated, phrase.negated.tree :: path, hphrase.negated, ?_, ?_, ?_⟩
    · exact congrArg Nat.succ hdepth
    · exact .down (List.mem_singleton_self _) hpath
    · rw [List.countP_cons_of_pos rfl, hcount]

/-- The tree of a derivation is read within exactly the depth of its text. -/
theorem exists_parse {phrase : Phrase} (h : Derives .chain phrase) :
    ∃ source room, Rule.parse ⟨phrase.depth, room⟩ source = .ok ⟨source, phrase.tree⟩ := by
  refine ⟨String.ofList phrase.text, byteSize phrase.text, Rule.parse_eq_ok_iff.2 ⟨rfl, ?_⟩⟩
  rw [String.toList_ofList]
  exact Expr.parse_eq_ok_iff.2
    ⟨Nat.le_refl _, phrase.tests, phrase.depth, Nat.le_refl _, h⟩

end Derives

/-- Under no limit can the bounds be lowered: some accepted text has a tree of that height, and some
accepted text that many `!` on a way down. -/
theorem Rule.tree_bounds_attained (maxDepth : Nat) :
    (∃ source room rule, parse ⟨maxDepth, room⟩ source = .ok rule ∧
      rule.tree.height = 2 * maxDepth + 3) ∧
    ∃ source room rule path, parse ⟨maxDepth, room⟩ source = .ok rule ∧ rule.tree.Path path ∧
      path.countP Expr.isNot = maxDepth := by
  constructor
  · obtain ⟨phrase, hderives, rfl, hheight⟩ := Derives.exists_highest maxDepth
    obtain ⟨source, room, hparse⟩ := hderives.exists_parse
    exact ⟨source, room, _, hparse, hheight⟩
  · obtain ⟨phrase, path, hderives, rfl, hpath, hcount⟩ := Derives.exists_most_negated maxDepth
    obtain ⟨source, room, hparse⟩ := (Derives.conjunct (.operand hderives)).exists_parse
    exact ⟨source, room, _, path, hparse, hpath, hcount⟩

end TagRules

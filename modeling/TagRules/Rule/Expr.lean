import TagRules.Rule.Atom

/-!
Rules as trees. Chains of one operator are a single node with all its operands,
and parentheses leave no trace, so a tree is the meaning of a text without its
spelling. `Expr.text` spells a tree again, with no more parentheses than the
precedence of the operators asks for.
-/

namespace TagRules

inductive Expr where
  | or (operands : List Expr)
  | and (operands : List Expr)
  | not (operand : Expr)
  | atom (test : Atom)
  deriving Repr

namespace Expr

/-- Joins operands by `join`; a single operand stays as it is. -/
def group (join : List Expr → Expr) : List Expr → Expr
  | [operand] => operand
  | operands => join operands

mutual

def holds (tags : TagSet) : Expr → Bool
  | or operands => anyHolds tags operands
  | and operands => allHold tags operands
  | not operand => !operand.holds tags
  | atom test => test.holds tags

def anyHolds (tags : TagSet) : List Expr → Bool
  | [] => false
  | operand :: rest => operand.holds tags || anyHolds tags rest

def allHold (tags : TagSet) : List Expr → Bool
  | [] => true
  | operand :: rest => operand.holds tags && allHold tags rest

end

theorem anyHolds_eq (tags : TagSet) (operands : List Expr) :
    anyHolds tags operands = operands.any (holds tags) := by
  induction operands with
  | nil => rfl
  | cons operand rest ih => rw [anyHolds, ih, List.any_cons]

theorem allHold_eq (tags : TagSet) (operands : List Expr) :
    allHold tags operands = operands.all (holds tags) := by
  induction operands with
  | nil => rfl
  | cons operand rest ih => rw [allHold, ih, List.all_cons]

@[simp] theorem holds_or (tags : TagSet) (operands : List Expr) :
    (or operands).holds tags = operands.any (holds tags) := by
  rw [holds, anyHolds_eq]

@[simp] theorem holds_and (tags : TagSet) (operands : List Expr) :
    (and operands).holds tags = operands.all (holds tags) := by
  rw [holds, allHold_eq]

@[simp] theorem holds_not (tags : TagSet) (operand : Expr) :
    (not operand).holds tags = !operand.holds tags := by
  rw [holds]

@[simp] theorem holds_atom (tags : TagSet) (a : Atom) : (atom a).holds tags = a.holds tags := by
  rw [holds]

mutual

/-- The membership tests of a rule, from left to right. -/
def atoms : Expr → List Atom
  | or operands => atomsOfAll operands
  | and operands => atomsOfAll operands
  | not operand => operand.atoms
  | atom test => [test]

def atomsOfAll : List Expr → List Atom
  | [] => []
  | operand :: rest => operand.atoms ++ atomsOfAll rest

end

theorem atomsOfAll_eq (operands : List Expr) : atomsOfAll operands = operands.flatMap atoms := by
  induction operands with
  | nil => rfl
  | cons operand rest ih => rw [atomsOfAll, ih, List.flatMap_cons]

def isOr : Expr → Bool
  | or _ => true
  | _ => false

def isChain : Expr → Bool
  | or _ => true
  | and _ => true
  | _ => false

def parenthesised (needed : Bool) (text : List Char) : List Char :=
  if needed then '(' :: text ++ [')'] else text

mutual

/-- The canonical text of a rule. -/
def text : Expr → List Char
  | or operands => " || ".toList.intercalate (alternativeTexts operands)
  | and operands => " && ".toList.intercalate (conjunctTexts operands)
  | not operand => '!' :: parenthesised operand.isChain operand.text
  | atom test => test.text

/-- The operands of an `or` bind tighter and need no parentheses. -/
def alternativeTexts : List Expr → List (List Char)
  | [] => []
  | operand :: rest => operand.text :: alternativeTexts rest

/-- Among the operands of an `and`, an `or` needs parentheses. -/
def conjunctTexts : List Expr → List (List Char)
  | [] => []
  | operand :: rest => parenthesised operand.isOr operand.text :: conjunctTexts rest

end

theorem alternativeTexts_eq (operands : List Expr) :
    alternativeTexts operands = operands.map text := by
  induction operands with
  | nil => rfl
  | cons operand rest ih => rw [alternativeTexts, ih, List.map_cons]

theorem conjunctTexts_eq (operands : List Expr) :
    conjunctTexts operands =
      operands.map (fun operand => parenthesised operand.isOr operand.text) := by
  induction operands with
  | nil => rfl
  | cons operand rest ih => rw [conjunctTexts, ih, List.map_cons]

instance : ToString Expr where
  toString expr := String.ofList expr.text

mutual

def decEq : (a b : Expr) → Decidable (a = b)
  | or as, or bs =>
    match decEqAll as bs with
    | isTrue h => isTrue (by rw [h])
    | isFalse h => isFalse (fun e => h (Expr.or.inj e))
  | and as, and bs =>
    match decEqAll as bs with
    | isTrue h => isTrue (by rw [h])
    | isFalse h => isFalse (fun e => h (Expr.and.inj e))
  | not a, not b =>
    match decEq a b with
    | isTrue h => isTrue (by rw [h])
    | isFalse h => isFalse (fun e => h (Expr.not.inj e))
  | atom a, atom b =>
    if h : a = b then isTrue (by rw [h]) else isFalse (fun e => h (Expr.atom.inj e))
  | or _, and _ => isFalse nofun
  | or _, not _ => isFalse nofun
  | or _, atom _ => isFalse nofun
  | and _, or _ => isFalse nofun
  | and _, not _ => isFalse nofun
  | and _, atom _ => isFalse nofun
  | not _, or _ => isFalse nofun
  | not _, and _ => isFalse nofun
  | not _, atom _ => isFalse nofun
  | atom _, or _ => isFalse nofun
  | atom _, and _ => isFalse nofun
  | atom _, not _ => isFalse nofun

def decEqAll : (as bs : List Expr) → Decidable (as = bs)
  | [], [] => isTrue rfl
  | [], _ :: _ => isFalse nofun
  | _ :: _, [] => isFalse nofun
  | a :: as, b :: bs =>
    match decEq a b, decEqAll as bs with
    | isTrue h, isTrue hs => isTrue (by rw [h, hs])
    | isFalse h, _ => isFalse (fun e => h (List.cons.inj e).1)
    | _, isFalse hs => isFalse (fun e => hs (List.cons.inj e).2)

end

instance : DecidableEq Expr :=
  decEq

end Expr

end TagRules

/-!
The two operators that join operands of a rule. `&&` binds tighter than `||`.
-/

namespace TagRules

inductive Operator where
  | and
  | or
  deriving DecidableEq, Repr

def Operator.symbol : Operator → String
  | .and => "&&"
  | .or => "||"

def Operator.ofPair? : Char → Char → Option Operator
  | '&', '&' => some .and
  | '|', '|' => some .or
  | _, _ => none

/-- Two characters spell an operator exactly when they are its symbol. -/
theorem Operator.ofPair?_eq_some {c d : Char} {op : Operator} :
    ofPair? c d = some op ↔ op.symbol.toList = [c, d] := by
  constructor
  · intro h
    unfold ofPair? at h
    split at h
    · cases h; rfl
    · cases h; rfl
    · cases h
  · cases op <;> simp only [symbol] <;> intro h <;> cases h <;> rfl

end TagRules

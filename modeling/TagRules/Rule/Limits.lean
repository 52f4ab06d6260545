/-!
Bounds on the rules that are accepted. Rules are written by users, so reading one
refuses a text that is too long to scan or nested too deeply.
-/

namespace TagRules

structure Limits where
  /-- How deeply `!` and parentheses may nest. -/
  maxDepth : Nat
  maxLength : Nat
  deriving DecidableEq, Repr

/-- The bounds that hold where none are asked for. -/
def Limits.standard : Limits :=
  ⟨64, 16384⟩

/-- The largest bound that a 64-bit setting can hold. -/
def Limits.largest : Nat :=
  UInt64.size - 1

/-- Bounds that no text of this world exceeds. -/
def Limits.unbounded : Limits :=
  ⟨largest, largest⟩

end TagRules

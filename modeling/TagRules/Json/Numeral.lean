import TagRules.Number.Shortest

/-!
Numbers as JSON writes them, and what they come to. A whole number that fits a
machine word is itself; anything else is the binary number that its leading digits
and its power of ten lead to.
-/

namespace TagRules.Json

structure Numeral where
  negative : Bool
  whole : List Char
  /-- The digits after the point, if there is one. -/
  fraction : Option (List Char)
  /-- The power of ten after the mark, if there is one. -/
  exponent : Option Int
  deriving DecidableEq, Repr

/-- What a written number comes to. -/
inductive Quantity where
  | integer (value : Int)
  /-- A binary number, with its sign apart. -/
  | float (negative : Bool) (size : Number.Binary64)
  deriving DecidableEq, Repr

namespace Numeral

def ofNat (n : Nat) : Numeral :=
  ⟨false, Nat.toDigits 10 n, none, none⟩

def digitValue (c : Char) : Nat :=
  c.toNat - '0'.toNat

def digitsValue (digits : List Char) : Nat :=
  digits.foldl (fun value c => 10 * value + digitValue c) 0

/-- Appends digits to a significand for as long as it fits 64 bits. The answer holds
the digits that are left. -/
def absorb (significand : Nat) : List Char → Nat × List Char
  | [] => (significand, [])
  | c :: rest =>
    let next := 10 * significand + digitValue c
    if next < UInt64.size then absorb next rest else (significand, c :: rest)

/-- The digits that fit a significand, and the power of ten that it is to be scaled by.
Of digits that do not fit, those before the point still count as places. -/
def significand (numeral : Numeral) : Nat × Int :=
  let (high, dropped) := absorb 0 numeral.whole
  let fraction := numeral.fraction.getD []
  let (all, ignored) := absorb high fraction
  (all, dropped.length - (fraction.length - ignored.length) + numeral.exponent.getD 0)

def powerOfTen (n : Nat) : Number.Binary64 :=
  (Number.Binary64.ofRatio? (Nat.pow 10 n) 1).getD .zero

/-- Scales a binary number by a power of ten, in steps that the format can hold. Three
steps down bring any number to zero; a number that gets too large has no answer. -/
def scale : Nat → Number.Binary64 → Int → Option Number.Binary64
  | 0, _, _ => some .zero
  | steps + 1, x, exponent =>
    if x.mantissa = 0 then some .zero
    else if 308 < exponent then none
    else if 0 ≤ exponent then x.mul? (powerOfTen exponent.toNat)
    else if -308 ≤ exponent then x.div? (powerOfTen (-exponent).toNat)
    else (x.div? (powerOfTen 308)).bind (fun y => scale steps y (exponent + 308))

/-- The binary number that a numeral comes to. -/
def size? (numeral : Numeral) : Option Number.Binary64 := do
  let (digits, exponent) := numeral.significand
  scale 4 (← Number.Binary64.ofRatio? digits 1) exponent

/-- The whole number that a numeral writes, if it writes one that fits a word. There is
no negative zero among the whole numbers. -/
def integer? (numeral : Numeral) : Option Int :=
  match numeral.fraction, numeral.exponent with
  | none, none =>
    let value := digitsValue numeral.whole
    if numeral.negative then
      if 0 < value ∧ value ≤ UInt64.size / 2 then some (-(value : Int)) else none
    else if value < UInt64.size then some (value : Int) else none
  | _, _ => none

/-- What a numeral comes to; nothing if it is too large for the format. -/
def quantity? (numeral : Numeral) : Option Quantity :=
  match numeral.integer? with
  | some value => some (.integer value)
  | none => numeral.size?.map (.float numeral.negative)

end Numeral

/-- A decimal in a message: written out while its first digit counts between a
hundred-thousandth and ten to the fifteenth, and in powers of ten beyond. -/
def decimalText (d : Number.Decimal) : List Char :=
  if -5 ≤ d.leadingPlace ∧ d.leadingPlace ≤ 15 then d.positional else d.scientific

def Quantity.text : Quantity → String
  | .integer value => toString value
  | .float negative size =>
    String.ofList ((if negative then ['-'] else []) ++ decimalText (.shortest size))

end TagRules.Json

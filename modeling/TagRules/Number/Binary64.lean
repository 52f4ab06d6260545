/-!
Binary floating point in 64 bits, as exact arithmetic on natural numbers. Signs are
kept by whoever uses these numbers.
-/

namespace TagRules.Number

/-- The nearest whole number to `num / den`; a half goes to the even neighbour. -/
def roundDiv (num den : Nat) : Nat :=
  let below := num / den
  let twice := 2 * (num % den)
  if twice < den then below
  else if den < twice then below + 1
  else below + below % 2

/-- The nonnegative number `mantissa * 2 ^ exponent`. -/
structure Binary64 where
  mantissa : Nat
  exponent : Int
  deriving DecidableEq, Repr

namespace Binary64

def minExponent : Int :=
  -1074

def maxExponent : Int :=
  971

def zero : Binary64 :=
  ⟨0, minExponent⟩

/-- The fraction `num / (den * 2 ^ exponent)` as numerator and denominator. -/
def scaled (num den : Nat) (exponent : Int) : Nat × Nat :=
  if 0 ≤ exponent then (num, den * Nat.pow 2 exponent.toNat)
  else (num * Nat.pow 2 (-exponent).toNat, den)

def ratio (x : Binary64) : Nat × Nat :=
  scaled x.mantissa 1 (-x.exponent)

/-- The exponent at which `num / den` has a mantissa of 53 bits, or the smallest one. -/
def exponentFor (num den : Nat) : Int :=
  let guess := (num.log2 : Int) - (den.log2 : Int) - 52
  let (top, bottom) := scaled num den guess
  max minExponent (if top < Nat.pow 2 52 * bottom then guess - 1 else guess)

/-- The number nearest to `num / den`, a tie going to the even mantissa. There is none
if the quotient is too large for the format. -/
def ofRatio? (num den : Nat) : Option Binary64 :=
  if num = 0 then some zero
  else
    let exponent := exponentFor num den
    let (top, bottom) := scaled num den exponent
    let mantissa := roundDiv top bottom
    let rounded : Binary64 :=
      if mantissa = Nat.pow 2 53 then ⟨Nat.pow 2 52, exponent + 1⟩ else ⟨mantissa, exponent⟩
    if rounded.exponent ≤ maxExponent then some rounded else none

def mul? (x y : Binary64) : Option Binary64 :=
  let (a, b) := x.ratio
  let (c, d) := y.ratio
  ofRatio? (a * c) (b * d)

def div? (x y : Binary64) : Option Binary64 :=
  let (a, b) := x.ratio
  let (c, d) := y.ratio
  ofRatio? (a * d) (b * c)

end Binary64

end TagRules.Number

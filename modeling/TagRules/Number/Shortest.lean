import TagRules.Number.Binary64

/-!
The decimal of a binary number: the fewest digits that read back as the same number,
and of those the nearest to it, a tie going to even digits. It can be written out in
full or in powers of ten.
-/

namespace TagRules.Number

structure Decimal where
  digits : Nat
  exponent : Int
  deriving DecidableEq, Repr

def Decimal.ratio (d : Decimal) : Nat × Nat :=
  if 0 ≤ d.exponent then (d.digits * Nat.pow 10 d.exponent.toNat, 1)
  else (d.digits, Nat.pow 10 (-d.exponent).toNat)

def Decimal.readsAs (d : Decimal) (x : Binary64) : Bool :=
  let (num, den) := d.ratio
  Binary64.ofRatio? num den = some x

/-- How far the decimal is from `num / den`, in units of one over both denominators. -/
def Decimal.distance (d : Decimal) (num den : Nat) : Nat :=
  let (top, bottom) := d.ratio
  (top * den - num * bottom) + (num * bottom - top * den)

/-- The nearer to `num / den` of two decimals that neighbour each other on one grid. Of
two that are equally near, the one with even digits is taken. -/
def Decimal.nearer (num den : Nat) (low high : Decimal) : Decimal :=
  let below := low.distance num den
  let above := high.distance num den
  if above < below ∨ (above = below ∧ low.digits % 2 = 1) then high else low

/-- The decimal with the given exponent that reads back as `x`, the nearer of two. A
number has only its two neighbours on such a grid to try. -/
def Decimal.onGrid? (x : Binary64) (exponent : Int) : Option Decimal :=
  let (num, den) := x.ratio
  let below :=
    if 0 ≤ exponent then num / (den * Nat.pow 10 exponent.toNat)
    else num * Nat.pow 10 (-exponent).toNat / den
  let low : Decimal := ⟨below, exponent⟩
  let high : Decimal := ⟨below + 1, exponent⟩
  match low.readsAs x, high.readsAs x with
  | true, true => some (nearer num den low high)
  | true, false => some low
  | false, true => some high
  | false, false => none

/-- Tries ever finer grids. Seventeen digits are always enough. -/
def Decimal.shortestFrom (x : Binary64) : Nat → Int → Decimal
  | 0, exponent => (onGrid? x exponent).getD ⟨0, 0⟩
  | tries + 1, exponent =>
    match onGrid? x exponent with
    | some d => d
    | none => shortestFrom x tries (exponent - 1)

/-- The power of ten that is above `x`, or one above that. -/
def Decimal.magnitude (x : Binary64) : Int :=
  let bits : Int := (x.mantissa.log2 : Int) + x.exponent
  bits * 30103 / 100000 + 2

/-- The shortest decimal that reads back as `x`. -/
def Decimal.shortest (x : Binary64) : Decimal :=
  if x.mantissa = 0 then ⟨0, 0⟩ else shortestFrom x 20 (magnitude x)

/-- The power of ten that the first digit counts. -/
def Decimal.leadingPlace (d : Decimal) : Int :=
  d.exponent + (Nat.toDigits 10 d.digits).length - 1

/-- A decimal written out, with at least one digit on either side of the point. -/
def Decimal.positional (d : Decimal) : List Char :=
  let digits := Nat.toDigits 10 d.digits
  if 0 ≤ d.exponent then
    digits ++ List.replicate d.exponent.toNat '0' ++ ['.', '0']
  else
    let places := (-d.exponent).toNat
    let padded := List.replicate (places + 1 - digits.length) '0' ++ digits
    padded.take (padded.length - places) ++ '.' :: padded.drop (padded.length - places)

/-- A decimal with one digit before the point and a signed power of ten. A single digit
has no point. -/
def Decimal.scientific (d : Decimal) : List Char :=
  let place := d.leadingPlace
  let mantissa := match Nat.toDigits 10 d.digits with
    | first :: second :: rest => first :: '.' :: second :: rest
    | digits => digits
  mantissa ++ 'e' :: (if place < 0 then '-' else '+') :: Nat.toDigits 10 place.natAbs

end TagRules.Number

/-!
# Binary fractions

The magnitude of a double is a number that counts the doubles from zero up to it.
This module finds the magnitude nearest to a fraction, in exact arithmetic.

## Main definitions

* `roundHalfEven` — the whole number nearest to a quotient, a tie to the even one.
* `nearestMagnitude` — the magnitude of the double nearest to a fraction.
* `squareRoot` — the whole part of a square root.
-/

namespace ProgramBreeding.Number

/-- The whole number nearest to `num / den`; of two equally near ones the even one. -/
def roundHalfEven (num den : Nat) : Nat :=
  let whole := num / den
  let twice := 2 * (num % den)
  if twice < den then whole
  else if den < twice then whole + 1
  else whole + whole % 2

/-- `n * 2 ^ places`. -/
def shift (n places : Nat) : Nat := if places = 0 then n else n <<< places

/-- `num / den * 2 ^ exponent` as a fraction. -/
def scaleFraction (num den : Nat) (exponent : Int) : Nat × Nat :=
  if 0 ≤ exponent then (shift num exponent.toNat, den) else (num, shift den (-exponent).toNat)

/-- The number of doubles with one exponent, and the least significand of a double that
has all its places. -/
def significandCount : Nat := 0x10000000000000

/-- The magnitude of infinity. -/
def infinityMagnitude : Nat := 2047 * significandCount

/-- The magnitude of the double nearest to a fraction in units of its last place, which
is `place` places above the least one. -/
def magnitudeAt (place : Int) (v : Nat × Nat) : Nat :=
  min (place.toNat * significandCount + roundHalfEven v.1 v.2) infinityMagnitude

/-- The magnitude of the double nearest to `num / den * 2 ^ exponent`, where `den` is not
zero; ties go to the even significand and overflow to infinity.  The last place of the
double is the power of two that leaves 53 binary places of the fraction, but not less
than the last place of all doubles. -/
def nearestMagnitude (num den : Nat) (exponent : Int) : Nat :=
  if num = 0 then 0
  else
    let least := -1074 - exponent
    let estimate := max least ((num.log2 : Int) - den.log2 - 52)
    let v := scaleFraction num den (-estimate)
    if least < estimate && v.1 / v.2 < significandCount then
      magnitudeAt (estimate - 1 - least) (scaleFraction num den (1 - estimate))
    else
      magnitudeAt (estimate - least) v

/-- The greatest number whose square is at most `n` and that differs from `root` in the
lowest `places` binary places only. -/
def squareRootFrom (n : Nat) : Nat → Nat → Nat
  | 0, root => root
  | places + 1, root =>
    let next := root + (1 <<< places)
    squareRootFrom n places (if next * next ≤ n then next else root)

/-- The whole part of a square root. -/
def squareRoot (n : Nat) : Nat := squareRootFrom n (n.log2 / 2 + 1) 0

end ProgramBreeding.Number

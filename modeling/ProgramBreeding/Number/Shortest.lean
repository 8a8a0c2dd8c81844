import ProgramBreeding.Number.Double

/-!
# Shortest decimals

The fewest decimal digits that read back as a given double.

## Main definitions

* `Decimal` — a whole coefficient times a power of ten.
* `Tie` — which of two equally near decimals is taken.
* `shortest` — the decimal with the fewest digits that reads back as a positive
  finite double, and among those the nearest one.

## Design notes

A decimal reads back as a double if it lies in the interval of reals that round to
it; the ends belong to the interval iff the significand is even.  If a point of a
decimal grid lies in the interval, so does one of the two neighbours of the double
on that grid, so for each number of digits only two candidates are tried.
-/

namespace ProgramBreeding.Number

/-- The value `coefficient * 10 ^ exponent`. -/
structure Decimal where
  coefficient : Nat
  exponent : Int
  deriving DecidableEq, Repr

/-- Which of two equally near decimals of the same length is taken. -/
inductive Tie where
  | up
  | even
  deriving DecidableEq, Repr

/-- The numerator and denominator of `value * base ^ exponent`. -/
def powerFraction (value base : Nat) (exponent : Int) : Nat × Nat :=
  if 0 ≤ exponent then (value * Nat.pow base exponent.toNat, 1)
  else (value, Nat.pow base (-exponent).toNat)

/-- Whether the first fraction is at most the second. -/
def fractionLE (a b : Nat × Nat) : Bool := a.1 * b.2 ≤ b.1 * a.2

/-- Whether the first fraction is less than the second. -/
def fractionLT (a b : Nat × Nat) : Bool := a.1 * b.2 < b.1 * a.2

/-- The position of the leading digit: the greatest `e` with `10 ^ e ≤ v`, for a
positive fraction `v`. -/
def leadingExponent (v : Nat × Nat) : Int :=
  let estimate := ((v.1.log2 : Int) - v.2.log2) * 1233 / 4096
  if fractionLE (powerFraction 1 10 (estimate + 1)) v then estimate + 1
  else if fractionLE (powerFraction 1 10 estimate) v then estimate
  else estimate - 1

/-- The reals that read back as a double, in units of a quarter of its last place:
the ends and whether they belong to the interval. -/
structure ReadingInterval where
  low : Nat × Nat
  high : Nat × Nat
  closed : Bool

/-- The interval of the double `significand * 2 ^ exponent`.  Below a power of two
the doubles lie twice as close. -/
def readingInterval (significand : Nat) (exponent : Int) : ReadingInterval :=
  let below := if significand = significandCount ∧ -1074 < exponent then 1 else 2
  { low := powerFraction (4 * significand - below) 2 (exponent - 2)
    high := powerFraction (4 * significand + 2) 2 (exponent - 2)
    closed := significand % 2 = 0 }

/-- Whether a fraction lies in the interval. -/
def ReadingInterval.contains (interval : ReadingInterval) (v : Nat × Nat) : Bool :=
  if interval.closed then fractionLE interval.low v && fractionLE v interval.high
  else fractionLT interval.low v && fractionLT v interval.high

/-- The neighbour of `v` on the grid of multiples of `10 ^ place` that lies in the
interval and is nearest to `v`, if one does. -/
def gridPoint (tie : Tie) (interval : ReadingInterval) (v : Nat × Nat) (place : Int) :
    Option Decimal :=
  let (num, den) :=
    if 0 ≤ place then (v.1, v.2 * Nat.pow 10 place.toNat)
    else (v.1 * Nat.pow 10 (-place).toNat, v.2)
  let lower := num / den
  let twice := 2 * (num % den)
  let inside (c : Nat) : Bool := interval.contains (powerFraction c 10 place)
  let upperIsNearer :=
    den < twice || (twice == den && (match tie with | .up => true | .even => lower % 2 == 1))
  match inside lower, inside (lower + 1) with
  | true, true => some ⟨if upperIsNearer then lower + 1 else lower, place⟩
  | true, false => some ⟨lower, place⟩
  | false, true => some ⟨lower + 1, place⟩
  | false, false => none

/-- The first grid with a hit, from `place` downwards over `count` grids. -/
def firstGridPoint (tie : Tie) (interval : ReadingInterval) (v : Nat × Nat) :
    Nat → Int → Decimal
  | 0, place => ⟨v.1 / v.2, place⟩
  | count + 1, place =>
    match gridPoint tie interval v place with
    | some found => found
    | none => firstGridPoint tie interval v count (place - 1)

/-- A decimal without zeros at the end of its coefficient; a coefficient of at most
`count` digits is enough. -/
def Decimal.trim : Nat → Decimal → Decimal
  | 0, d => d
  | count + 1, d =>
    if d.coefficient % 10 = 0 then Decimal.trim count ⟨d.coefficient / 10, d.exponent + 1⟩ else d

/-- The shortest decimal that reads back as the positive finite double `x`. -/
def shortest (tie : Tie) (x : Double) : Decimal :=
  let v := x.fraction
  let interval := readingInterval x.significand x.exponent
  (firstGridPoint tie interval v 17 (leadingExponent v)).trim 20

end ProgramBreeding.Number

import ProgramBreeding.Number.Double

/-!
# Sums, extrema and the order of doubles

## Main definitions

* `sum` — the sum from left to right; it starts from the negative zero.
* `greatest`, `least` — extrema that ignore undefined values.
* `totalKey` — the place in the total order of all doubles, signed zeros and undefined
  values included.
* `clampUnit` — a double moved into the unit interval.
-/

namespace ProgramBreeding.Number

/-- The negative zero. -/
def negativeZero : Double := ⟨0x8000000000000000⟩

/-- The sum from left to right.  An empty sum is the negative zero. -/
def sum (xs : List Double) : Double := xs.foldl (· + ·) negativeZero

/-- The greater of two doubles, the second if they are the same number; an undefined one
gives way to the other. -/
def maxDefined (a b : Double) : Double :=
  if a.isNaN then b else if b.isNaN then a else if b < a then a else b

/-- The less of two doubles, the second if they are the same number; an undefined one
gives way to the other. -/
def minDefined (a b : Double) : Double :=
  if a.isNaN then b else if b.isNaN then a else if a < b then a else b

/-- The greatest of some doubles. -/
def greatest (xs : List Double) : Double := xs.foldl maxDefined (Double.infinity true)

/-- The least of some doubles. -/
def least (xs : List Double) : Double := xs.foldl minDefined (Double.infinity false)

/-- The place of a double in the total order: its bits, downwards if the sign is set. -/
def totalKey (x : Double) : UInt64 :=
  if x.isNegative then 0x7FFFFFFFFFFFFFFF - x.magnitude else 0x8000000000000000 + x.magnitude

/-- A double moved into the unit interval; an undefined one becomes zero. -/
def clampUnit (x : Double) : Double :=
  if x.isNaN then 0.0 else if x < 0.0 then 0.0 else if 1.0 < x then 1.0 else x

end ProgramBreeding.Number

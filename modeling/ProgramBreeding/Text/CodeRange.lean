/-!
# Sets of code points

A property of characters is a table of closed ranges of code points, a case map a
table of runs that move by one distance.
-/

namespace ProgramBreeding.Text

/-- A set of code points, as closed ranges in increasing order. -/
abbrev CodeRanges := Array (Nat × Nat)

/-- Whether a code point lies in one of the ranges. -/
def CodeRanges.contains (ranges : CodeRanges) (code : Nat) : Bool :=
  ranges.any fun range => range.1 ≤ code && code ≤ range.2

/-- A run of code points `first`, `first + step`, … up to `last` that all move by
`distance` when their case changes. -/
structure CaseShift where
  first : Nat
  last : Nat
  step : Nat
  distance : Int

/-- The image of a code point under a run, if the run holds it. -/
def CaseShift.apply? (shift : CaseShift) (code : Nat) : Option Nat :=
  if shift.first ≤ code && code ≤ shift.last && (code - shift.first) % shift.step == 0 then
    some (code + shift.distance).toNat
  else
    none

end ProgramBreeding.Text

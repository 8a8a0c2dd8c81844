import ProgramBreeding.Number.Double

/-!
# Random numbers

A source of random numbers and the draws that are made from it.

## Main definitions

* `Draw` — what is done with random numbers.
* `RandomSource` — what can be drawn, and what is known of it.
* `between` — a whole number from a range.

## Design notes

Programs are bred with random numbers from elsewhere.  So what is said of breeding is said of
every source, and only what each draw promises is known of it: numbers come from the range
that was asked for, and there is none in it that cannot come.
-/

namespace ProgramBreeding.Chance

/-- What is done with random numbers, from one state of their source to the next. -/
abbrev Draw (G : Type) := StateM G

/-- A source of random numbers with states in `G`. -/
class RandomSource (G : Type) where
  /-- The state for a seed. -/
  ofSeed : UInt64 → G
  /-- A natural number less than `size`, which is positive and fits in a word; all of them are
  equally likely. -/
  below (size : Nat) : Draw G Nat
  /-- An event of the given probability. -/
  chance (probability : Double) : Draw G Bool
  /-- A double between zero and `limit`, which is positive; the limit is excluded. -/
  realBelow (limit : Double) : Draw G Double
  /-- A number from a range is in it, if there is any. -/
  below_lt {size : Nat} (h : 0 < size) (g : G) : (below size g).1 < size
  /-- Each number of a range is drawn in some state. -/
  exists_below_eq {size i : Nat} (hsize : size ≤ UInt64.size) (hi : i < size) : ∃ g, (below size g).1 = i

export RandomSource (below chance realBelow)

/-- A whole number between two others, both included. -/
def between {G : Type} [RandomSource G] (low high : Int) : Draw G Int := do
  return low + (← below (high - low + 1).toNat)

end ProgramBreeding.Chance

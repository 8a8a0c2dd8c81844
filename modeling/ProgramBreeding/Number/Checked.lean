/-!
# Checked arithmetic on 64-bit integers

Integers of the object language are signed 64-bit words.  An operation either
yields the exact result or none at all; nothing ever wraps around.

## Main definitions

* `word?` — the word with a given value, if there is one.
* `add`, `sub`, `mul`, `neg`, `abs` — exact results that fit.
* `quotient`, `remainder` — division towards zero.
* `floorDiv`, `floorMod` — division towards negative infinity.
* `pow` — powers, by squaring.

## Design notes

Sums, products and division towards zero go through `word?`, so "the result is exact" is one
lemma about `word?` and a look at which integer it is applied to.  A remainder is found
through its quotient, so it is missing whenever the quotient is: the smallest word has no
remainder by `-1`.  Division towards negative infinity corrects the results of division
towards zero by operations on words that are not checked, since the corrected results always
fit.
-/

namespace ProgramBreeding.Checked

/-- The word whose value is `n`, if `n` lies in the 64-bit range. -/
def word? (n : Int) : Option Int64 :=
  if h : Int64.minValue.toInt ≤ n ∧ n ≤ Int64.maxValue.toInt then
    some (Int64.ofIntLE n h.1 h.2)
  else
    none

/-- The sum, if it fits. -/
def add (a b : Int64) : Option Int64 := word? (a.toInt + b.toInt)

/-- The difference, if it fits. -/
def sub (a b : Int64) : Option Int64 := word? (a.toInt - b.toInt)

/-- The product, if it fits. -/
def mul (a b : Int64) : Option Int64 := word? (a.toInt * b.toInt)

/-- The opposite, if it fits. -/
def neg (a : Int64) : Option Int64 := word? (-a.toInt)

/-- The absolute value, if it fits. -/
def abs (a : Int64) : Option Int64 := word? a.toInt.natAbs

/-- The quotient rounded towards zero, if the divisor is not zero and the quotient
fits. -/
def quotient (a b : Int64) : Option Int64 :=
  if b = 0 then none else word? (a.toInt.tdiv b.toInt)

/-- The remainder with the sign of the dividend, if the quotient exists. -/
def remainder (a b : Int64) : Option Int64 :=
  (quotient a b).bind fun _ => word? (a.toInt.tmod b.toInt)

/-- Whether rounding towards negative infinity lowers the quotient, where `r` is the
remainder by `b`: whether there is one and its sign is not that of the divisor. -/
def roundsDown (r b : Int64) : Bool := r != 0 && decide (r < 0) != decide (b < 0)

/-- The quotient rounded towards negative infinity, if the divisor is not zero
and the quotient fits. -/
def floorDiv (a b : Int64) : Option Int64 :=
  (quotient a b).bind fun q => (remainder a b).map fun r => if roundsDown r b then q - 1 else q

/-- The remainder with the sign of the divisor, if the quotient exists. -/
def floorMod (a b : Int64) : Option Int64 :=
  (remainder a b).map fun r => if roundsDown r b then r + b else r

/-- `acc` times the `n`-th power of `base`, if everything on the way fits: the base is
squared once for each binary digit of `n`, and taken into the product where the digit is
one. -/
def powFrom (acc base : Int64) (n : Nat) : Option Int64 :=
  if n = 0 then some acc
  else
    (if n % 2 = 1 then mul acc base else some acc).bind fun acc =>
      if n = 1 then some acc
      else (mul base base).bind fun square => powFrom acc square (n / 2)
  termination_by n

/-- The power, if it fits. -/
def pow (a : Int64) (n : Nat) : Option Int64 := powFrom 1 a n

/-! ### The word and its value -/

theorem toInt_of_word? {n : Int} {w : Int64} (h : word? n = some w) :
    w.toInt = n := by
  unfold word? at h
  split at h
  · cases h; simp
  · cases h

theorem word?_toInt (w : Int64) : word? w.toInt = some w := by
  unfold word?
  rw [dif_pos ⟨w.minValue_le_toInt, w.toInt_le⟩]
  simp

theorem word?_eq_some_iff {n : Int} {w : Int64} : word? n = some w ↔ w.toInt = n :=
  ⟨toInt_of_word?, fun h => h ▸ word?_toInt w⟩

theorem word?_eq_none_iff {n : Int} :
    word? n = none ↔ n < Int64.minValue.toInt ∨ Int64.maxValue.toInt < n := by
  unfold word?
  split
  · simp only [reduceCtorEq, false_iff]
    omega
  · simp only [true_iff]
    omega

/-! ### Division by zero -/

theorem ne_zero_of_quotient {a b q : Int64} (h : quotient a b = some q) : b ≠ 0 := by
  unfold quotient at h
  split at h
  · cases h
  · assumption

theorem ne_zero_of_remainder {a b r : Int64} (h : remainder a b = some r) : b ≠ 0 := by
  obtain ⟨_, hquotient, -⟩ := Option.bind_eq_some_iff.mp h
  exact ne_zero_of_quotient hquotient

theorem ne_zero_of_floorDiv {a b n : Int64} (h : floorDiv a b = some n) : b ≠ 0 := by
  obtain ⟨_, hquotient, -⟩ := Option.bind_eq_some_iff.mp h
  exact ne_zero_of_quotient hquotient

theorem ne_zero_of_floorMod {a b n : Int64} (h : floorMod a b = some n) : b ≠ 0 := by
  obtain ⟨_, hremainder, -⟩ := Option.map_eq_some_iff.mp h
  exact ne_zero_of_remainder hremainder

end ProgramBreeding.Checked

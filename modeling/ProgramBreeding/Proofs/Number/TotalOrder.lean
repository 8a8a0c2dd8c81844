import ProgramBreeding.Proofs.Number.Order

/-!
# The total order of doubles

All doubles are in one order, in which no two different ones are equal: numbers as they are, the negative zero
before the other one, and the undefined doubles at the two ends, by their signs.

## Main definitions

* `Double.TotalLT` — the total order.
* `Double.totalLT_iff` — `totalKey` is the place of a double in it.
* `Double.totalKey_inj` — different doubles have different places.
-/

namespace ProgramBreeding

open Number

namespace Double

/-- The total order of all doubles.  Among undefined doubles the one with the greater magnitude stands further
out. -/
inductive TotalLT (a b : Double) : Prop
  | numbers (h : a < b)
  | zeros (ha : a.isZero = true) (hb : b.isZero = true) (hsign : a.isNegative = true) (hsign' : b.isNegative = false)
  | first (ha : a.isNaN = true) (hsign : a.isNegative = true) (hb : b.isNaN = true → b.isNegative = false)
  | last (hb : b.isNaN = true) (hsign : b.isNegative = false) (ha : a.isNaN = true → a.isNegative = true)
  | undefinedFirst (ha : a.isNaN = true) (hb : b.isNaN = true) (hsign : a.isNegative = true)
      (hsign' : b.isNegative = true) (h : b.magnitude < a.magnitude)
  | undefinedLast (ha : a.isNaN = true) (hb : b.isNaN = true) (hsign : a.isNegative = false)
      (hsign' : b.isNegative = false) (h : a.magnitude < b.magnitude)

variable {a b : Double}

/-! ### Undefined doubles -/

theorem isNaN_eq_true_iff : a.isNaN = true ↔ 0x7FF0000000000000 < a.magnitude.toNat := by
  rw [isNaN, decide_eq_true_iff, UInt64.lt_iff_toNat_lt]
  rfl

/-- Undefined doubles have greater magnitudes than numbers. -/
theorem magnitude_lt_of_isNaN (ha : a.isNaN = false) (hb : b.isNaN = true) : a.magnitude < b.magnitude := by
  rw [← Bool.not_eq_true, isNaN_eq_true_iff, Nat.not_lt] at ha
  exact UInt64.lt_iff_toNat_lt.mpr (Nat.lt_of_le_of_lt ha (isNaN_eq_true_iff.mp hb))

/-! ### Keys -/

/-- Negative doubles have the lower keys, the greater of them the lower ones; all others the higher ones. -/
theorem totalKey_lt_iff : totalKey a < totalKey b ↔
    if a.isNegative then b.isNegative = true → b.magnitude < a.magnitude
    else b.isNegative = false ∧ a.magnitude < b.magnitude := by
  have ha := a.magnitude_lt
  have hb := b.magnitude_lt
  rw [UInt64.lt_iff_toNat_lt, UInt64.lt_iff_toNat_lt, UInt64.lt_iff_toNat_lt, toNat_totalKey, toNat_totalKey]
  cases a.isNegative <;> cases b.isNegative <;>
    simp only [if_true, if_false, Bool.false_eq_true, Bool.true_eq_false, true_and, false_and, forall_const,
      false_implies, iff_true, iff_false] <;> omega

theorem totalKey_lt_of_lt (h : a < b) : totalKey a < totalKey b := by
  obtain ⟨ha, hb, hlt⟩ := lt_iff.mp h
  refine UInt64.not_le.mp fun hkey => ?_
  obtain ⟨-, -, hle⟩ := le_iff.mp (le_of_totalKey hb ha hkey)
  exact absurd hlt (Nat.not_lt.mpr hle)

/-- Only the zeros are the same number without having the same key. -/
theorem zeros_of_le (h : b ≤ a) (hkey : totalKey a < totalKey b) :
    a.isZero = true ∧ b.isZero = true ∧ a.isNegative = true ∧ b.isNegative = false := by
  obtain ⟨-, -, hle⟩ := le_iff.mp h
  have hzero (x : Double) (h : x.magnitude.toNat = 0) : x.isZero = true :=
    beq_iff_eq.mpr (UInt64.toNat_inj.mp h)
  have ha := a.magnitude_lt
  rw [UInt64.lt_iff_toNat_lt, toNat_totalKey, toNat_totalKey] at hkey
  rw [toNat_position, toNat_position] at hle
  cases hsign : a.isNegative <;> cases hsign' : b.isNegative <;>
    simp only [hsign, hsign', if_true, if_false, Bool.false_eq_true] at hle hkey
  case true.false => exact ⟨hzero a (by omega), hzero b (by omega), rfl, rfl⟩
  all_goals omega

theorem TotalLT.totalKey_lt (h : a.TotalLT b) : totalKey a < totalKey b := by
  cases h with
  | numbers h => exact totalKey_lt_of_lt h
  | zeros ha hb hsign hsign' =>
    rw [totalKey_lt_iff, if_pos hsign, hsign']
    exact fun h => absurd h Bool.false_ne_true
  | first ha hsign hb =>
    rw [totalKey_lt_iff, if_pos hsign]
    intro hsign'
    refine magnitude_lt_of_isNaN (Bool.eq_false_iff.mpr fun hnan => ?_) ha
    exact absurd ((hb hnan).symm.trans hsign') Bool.false_ne_true
  | last hb hsign ha =>
    rw [totalKey_lt_iff]
    split
    · exact fun h => absurd (hsign.symm.trans h) Bool.false_ne_true
    · rename_i hsign'
      exact ⟨hsign, magnitude_lt_of_isNaN (Bool.eq_false_iff.mpr fun hnan => hsign' (ha hnan)) hb⟩
  | undefinedFirst ha hb hsign hsign' h =>
    rw [totalKey_lt_iff, if_pos hsign]
    exact fun _ => h
  | undefinedLast ha hb hsign hsign' h =>
    rw [totalKey_lt_iff, if_neg (Bool.eq_false_iff.mp hsign)]
    exact ⟨hsign', h⟩

theorem totalLT_of_totalKey_lt (h : totalKey a < totalKey b) : a.TotalLT b := by
  have hkeys := totalKey_lt_iff.mp h
  cases ha : a.isNaN <;> cases hb : b.isNaN
  case false.false =>
    by_cases hlt : a < b
    · exact .numbers hlt
    · obtain ⟨hzero, hzero', hsign, hsign'⟩ := zeros_of_le (Double.le_of_not_lt hb ha hlt) h
      exact .zeros hzero hzero' hsign hsign'
  case false.true =>
    have hnumber (h : a.isNaN = true) : a.isNegative = true := absurd (ha.symm.trans h) Bool.false_ne_true
    cases hsign : b.isNegative with
    | false => exact .last hb hsign hnumber
    | true =>
      -- A negative undefined double has nothing but such doubles before it.
      rw [hsign] at hkeys
      split at hkeys
      · exact absurd (hkeys rfl) (UInt64.lt_asymm (magnitude_lt_of_isNaN ha hb))
      · exact absurd hkeys.1.symm Bool.false_ne_true
  case true.false =>
    have hnumber (h : b.isNaN = true) : b.isNegative = false := absurd (hb.symm.trans h) Bool.false_ne_true
    cases hsign : a.isNegative with
    | true => exact .first ha hsign hnumber
    | false =>
      rw [if_neg (Bool.eq_false_iff.mp hsign)] at hkeys
      exact absurd hkeys.2 (UInt64.lt_asymm (magnitude_lt_of_isNaN hb ha))
  case true.true =>
    cases hsign : a.isNegative <;> cases hsign' : b.isNegative <;>
      simp only [hsign, hsign', if_true, if_false, Bool.false_eq_true, forall_const] at hkeys
    case false.false => exact .undefinedLast ha hb hsign hsign' hkeys.2
    case false.true => exact absurd hkeys.1.symm Bool.false_ne_true
    case true.false => exact .first ha hsign fun _ => hsign'
    case true.true => exact .undefinedFirst ha hb hsign hsign' hkeys

/-- The total order is that of the keys. -/
theorem totalLT_iff : a.TotalLT b ↔ totalKey a < totalKey b := ⟨TotalLT.totalKey_lt, totalLT_of_totalKey_lt⟩

/-! ### Different doubles -/

/-- A double is made of its sign and its magnitude. -/
theorem toNat_bits (x : Double) :
    x.bits.toNat = if x.isNegative then 0x8000000000000000 + x.magnitude.toNat else x.magnitude.toNat := by
  have hmagnitude : x.magnitude.toNat = x.bits.toNat % 0x8000000000000000 :=
    Nat.and_two_pow_sub_one_eq_mod x.bits.toNat 63
  have hlt : x.bits.toNat < 18446744073709551616 := x.bits.toNat_lt_size
  have hsign : x.isNegative = decide (0x8000000000000000 ≤ x.bits.toNat) := rfl
  rw [hsign, hmagnitude]
  by_cases h : 0x8000000000000000 ≤ x.bits.toNat
  · rw [decide_eq_true h, if_pos rfl]
    omega
  · rw [decide_eq_false h, if_neg Bool.false_ne_true]
    omega

/-- Different doubles have different places in the total order. -/
theorem totalKey_inj : totalKey a = totalKey b ↔ a = b := by
  refine ⟨fun h => ?_, fun h => congrArg totalKey h⟩
  have hmagnitude := a.magnitude_lt
  have hmagnitude' := b.magnitude_lt
  have hbits : a.bits.toNat = b.bits.toNat := by
    rw [← UInt64.toNat_inj, toNat_totalKey, toNat_totalKey] at h
    rw [toNat_bits a, toNat_bits b]
    revert h
    cases a.isNegative <;> cases b.isNegative <;> simp only [if_true, if_false, Bool.false_eq_true] <;> omega
  exact congrArg Double.mk (UInt64.toNat_inj.mp hbits)

end Double

end ProgramBreeding

import ProgramBreeding.Number.Checked
import Mathlib.Algebra.Order.Ring.Int
import Mathlib.Tactic.Ring

/-!
# Checked arithmetic is exact

Division towards negative infinity is division towards zero with a correction, and powers are found by
squaring.  Neither ever leaves the 64-bit range unless the exact result does.

## Main definitions

* `Fits` — the integers that words hold.
* `floorDiv_eq`, `floorMod_eq` — quotients and remainders of words as those of integers.
* `powFrom_eq`, `pow_eq` — powers of words as those of integers.

## Design notes

Results are compared as words with a value, `word?`, so an equation says both what a result is and when there
is one.  Only the remainder of the least word by `-1` does not follow this rule: it would be zero, and is
missing because its quotient is.
-/

namespace ProgramBreeding.Checked

/-- Integers that words hold. -/
def Fits (n : Int) : Prop := -9223372036854775808 ≤ n ∧ n ≤ 9223372036854775807

instance (n : Int) : Decidable (Fits n) := inferInstanceAs (Decidable (_ ∧ _))

theorem fits_toInt (w : Int64) : Fits w.toInt := ⟨w.minValue_le_toInt, w.toInt_le⟩

theorem word?_eq_none_iff_not_fits {n : Int} : word? n = none ↔ ¬ Fits n := by
  rw [word?_eq_none_iff, Int64.toInt_minValue, Int64.toInt_maxValue, Fits]
  omega

theorem exists_word?_of_fits {n : Int} (h : Fits n) : ∃ w, word? n = some w ∧ w.toInt = n := by
  cases hw : word? n with
  | none => exact absurd h (word?_eq_none_iff_not_fits.mp hw)
  | some w => exact ⟨w, rfl, toInt_of_word? hw⟩

theorem toInt_ne_zero {w : Int64} (h : w ≠ 0) : w.toInt ≠ 0 := fun hzero => h (Int64.toInt_inj.mp hzero)

theorem toInt_sub_of_fits {x y : Int64} (h : Fits (x.toInt - y.toInt)) : (x - y).toInt = x.toInt - y.toInt := by
  rw [Int64.toInt_sub]
  unfold Fits at h
  exact Int.bmod_eq_of_le (by omega) (by omega)

theorem toInt_add_of_fits {x y : Int64} (h : Fits (x.toInt + y.toInt)) : (x + y).toInt = x.toInt + y.toInt := by
  rw [Int64.toInt_add]
  unfold Fits at h
  exact Int.bmod_eq_of_le (by omega) (by omega)

/-! ### Division of integers -/

section

variable {a b : Int}

theorem tmod_neg_iff (h : ¬ b ∣ a) : a.tmod b < 0 ↔ a < 0 := by
  have hsign := Int.sign_tmod a b
  rw [if_neg h] at hsign
  rw [← Int.sign_eq_neg_one_iff_neg, hsign, Int.sign_eq_neg_one_iff_neg]

/-- Rounding towards negative infinity lowers the quotient if there is a remainder with another sign than the
divisor. -/
theorem fdiv_eq_of_tmod (a : Int) (hb : b ≠ 0) :
    a.fdiv b = a.tdiv b - if a.tmod b ≠ 0 ∧ ¬ (a.tmod b < 0 ↔ b < 0) then 1 else 0 := by
  rw [Int.fdiv_eq_tdiv]
  by_cases hdvd : b ∣ a
  · rw [if_pos hdvd, if_neg]
    exact fun h => h.1 (Int.tmod_eq_zero_of_dvd hdvd)
  · have hr : a.tmod b ≠ 0 := fun h => hdvd (Int.dvd_of_tmod_eq_zero h)
    simp only [hdvd, hr, tmod_neg_iff hdvd, ne_eq, not_false_eq_true, true_and, if_false]
    rcases Int.lt_or_gt_of_ne hb with hb | hb
    · rw [Int.sign_eq_neg_one_of_neg hb]
      grind
    · rw [Int.sign_eq_one_of_pos hb]
      grind

theorem fmod_eq_of_tmod (a : Int) (hb : b ≠ 0) :
    a.fmod b = a.tmod b + if a.tmod b ≠ 0 ∧ ¬ (a.tmod b < 0 ↔ b < 0) then b else 0 := by
  rw [Int.fmod_def, fdiv_eq_of_tmod a hb, Int.tmod_def]
  split
  · rw [Int.mul_sub]
    omega
  · rw [Int.sub_zero]
    omega

/-- A quotient with a remainder is at most half as large as the dividend. -/
theorem two_mul_natAbs_tdiv_le (hb : b ≠ 0) (hr : a.tmod b ≠ 0) : 2 * (a.tdiv b).natAbs ≤ a.natAbs := by
  have hdivisor : 2 ≤ b.natAbs := by
    by_contra hsmall
    have hone : b.natAbs = 1 := by omega
    have hzero : (a.tmod b).natAbs = 0 := by rw [Int.natAbs_tmod, hone, Nat.mod_one]
    exact hr (Int.natAbs_eq_zero.mp hzero)
  have hquotient : (a.tdiv b).natAbs = a.natAbs / b.natAbs := Int.natAbs_tdiv a b
  have hhalf : a.natAbs / b.natAbs ≤ a.natAbs / 2 := Nat.div_le_div_left hdivisor (by decide)
  omega

/-- A remainder has the sign of the divisor, and is smaller than it. -/
theorem fmod_bounds (a : Int) (hb : b ≠ 0) :
    (a.fmod b = 0 ∨ (a.fmod b).sign = b.sign) ∧ (a.fmod b).natAbs < b.natAbs := by
  rcases Int.lt_or_gt_of_ne hb with hb | hb
  · have hneg := Int.neg_fmod_neg (-a) (-b)
    rw [Int.neg_neg, Int.neg_neg] at hneg
    have hnonneg := Int.fmod_nonneg_of_pos (-a) (Int.neg_pos_of_neg hb)
    have hlt := Int.fmod_lt_of_pos (-a) (Int.neg_pos_of_neg hb)
    rw [Int.sign_eq_neg_one_of_neg hb, Int.sign_eq_neg_one_iff_neg]
    omega
  · have hnonneg := Int.fmod_nonneg_of_pos a hb
    have hlt := Int.fmod_lt_of_pos a hb
    rw [Int.sign_eq_one_of_pos hb, Int.sign_eq_one_iff_pos]
    omega

end

/-! ### Division of words -/

section

variable {a b : Int64}

theorem fits_tmod (a : Int) (hb : b ≠ 0) : Fits (a.tmod b.toInt) := by
  have hlt := Nat.mod_lt a.natAbs (Int.natAbs_pos.mpr (toInt_ne_zero hb))
  rw [← Int.natAbs_tmod] at hlt
  obtain ⟨hleast, hgreatest⟩ := fits_toInt b
  constructor <;> omega

theorem fits_fmod (a : Int) (hb : b ≠ 0) : Fits (a.fmod b.toInt) := by
  have hlt := (fmod_bounds a (toInt_ne_zero hb)).2
  obtain ⟨hleast, hgreatest⟩ := fits_toInt b
  constructor <;> omega

/-- The only quotient that does not fit is that of the least word by `-1`. -/
theorem fits_tdiv_iff (hb : b ≠ 0) :
    Fits (a.toInt.tdiv b.toInt) ↔ ¬ (a = Int64.minValue ∧ b = -1) := by
  have hleast : a = Int64.minValue ↔ a.toInt = -9223372036854775808 := by
    rw [← Int64.toInt_inj, Int64.toInt_minValue]
    rfl
  have hunit : b = -1 ↔ b.toInt = -1 := by
    rw [← Int64.toInt_inj]
    rfl
  have ha := fits_toInt a
  have hb' := toInt_ne_zero hb
  rw [hleast, hunit]
  unfold Fits at ha ⊢
  by_cases hminus : b.toInt = -1
  · rw [hminus, Int.tdiv_neg, Int.tdiv_one]
    omega
  · by_cases hr : a.toInt.tmod b.toInt = 0
    · have hexact := Int.mul_tdiv_add_tmod a.toInt b.toInt
      have hle := Int.natAbs_tdiv_le_natAbs a.toInt b.toInt
      have hne : a.toInt.tdiv b.toInt ≠ 9223372036854775808 := by
        intro hq
        rw [hq] at hexact
        omega
      omega
    · have hhalf := two_mul_natAbs_tdiv_le hb' hr
      omega

theorem quotient_eq (hb : b ≠ 0) : quotient a b = word? (a.toInt.tdiv b.toInt) := if_neg hb

theorem roundsDown_eq_true_iff {r : Int64} :
    roundsDown r b = true ↔ r.toInt ≠ 0 ∧ ¬ (r.toInt < 0 ↔ b.toInt < 0) := by
  have hzero : (0 : Int64).toInt = 0 := rfl
  have hr : r ≠ 0 ↔ r.toInt ≠ 0 := not_congr Int64.toInt_inj.symm
  simp only [roundsDown, Bool.and_eq_true, bne_iff_ne, hr, ne_eq, decide_eq_decide, Int64.lt_iff_toInt_lt, hzero]

/-- The quotient rounded towards negative infinity, if it fits. -/
theorem floorDiv_eq (hb : b ≠ 0) : floorDiv a b = word? (a.toInt.fdiv b.toInt) := by
  have hb' := toInt_ne_zero hb
  obtain ⟨r, hword, hr⟩ := exists_word?_of_fits (fits_tmod a.toInt hb)
  rw [fdiv_eq_of_tmod a.toInt hb', ← hr, ← if_congr roundsDown_eq_true_iff rfl rfl]
  cases hrounds : roundsDown r b with
  | false =>
    rw [if_neg Bool.false_ne_true, Int.sub_zero, ← quotient_eq hb, floorDiv, remainder, hword]
    cases quotient a b with
    | none => rfl
    | some q => simp [hrounds]
  | true =>
    -- A quotient that has to be lowered is not the least word.
    have hhalf := two_mul_natAbs_tdiv_le hb' (hr ▸ (roundsDown_eq_true_iff.mp hrounds).1)
    have ha := fits_toInt a
    unfold Fits at ha
    obtain ⟨q, hquotient, hq⟩ : ∃ q, word? (a.toInt.tdiv b.toInt) = some q ∧ q.toInt = a.toInt.tdiv b.toInt :=
      exists_word?_of_fits (by unfold Fits; omega)
    have hlower : (q - 1).toInt = a.toInt.tdiv b.toInt - 1 := by
      rw [← hq]
      exact toInt_sub_of_fits (by rw [hq, Int64.toInt_one]; unfold Fits; omega)
    rw [if_pos rfl, word?_eq_some_iff.mpr hlower, floorDiv, remainder, quotient_eq hb, hquotient, hword]
    simp [hrounds]

/-- The remainder with the sign of the divisor; it is missing for the least word by `-1`, and only there. -/
theorem floorMod_eq (hb : b ≠ 0) :
    floorMod a b = if a = Int64.minValue ∧ b = -1 then none else word? (a.toInt.fmod b.toInt) := by
  obtain ⟨r, hword, hr⟩ := exists_word?_of_fits (fits_tmod a.toInt hb)
  rw [floorMod, remainder, quotient_eq hb, hword]
  split
  · rename_i hleast
    rw [word?_eq_none_iff_not_fits.mpr fun h => (fits_tdiv_iff hb).mp h hleast]
    rfl
  · rename_i hother
    obtain ⟨q, hquotient, -⟩ := exists_word?_of_fits ((fits_tdiv_iff hb).mpr hother)
    rw [hquotient, fmod_eq_of_tmod a.toInt (toInt_ne_zero hb), ← hr, ← if_congr roundsDown_eq_true_iff rfl rfl]
    show some (if roundsDown r b then r + b else r) = _
    symm
    rw [word?_eq_some_iff]
    split
    · rename_i hrounds
      obtain ⟨-, hsigns⟩ := roundsDown_eq_true_iff.mp hrounds
      have hremainder := fits_toInt r
      have hdivisor := fits_toInt b
      exact toInt_add_of_fits (by unfold Fits at *; omega)
    · exact (Int.add_zero _).symm

end

/-! ### Powers -/

/-- What does not fit does not fit either after a multiplication by a positive number. -/
theorem not_fits_mul {n k : Int} (h : ¬ Fits n) (hk : 0 < k) : ¬ Fits (n * k) := by
  unfold Fits at h ⊢
  rcases le_or_gt 0 n with hn | hn
  · have hle : n * 1 ≤ n * k := Int.mul_le_mul_of_nonneg_left hk hn
    omega
  · have hle : n * k ≤ n * 1 := Int.mul_le_mul_of_nonpos_left (by omega) hk
    omega

/-- No square is `2 ^ 63`. -/
theorem mul_self_ne (b : Int) : b * b ≠ 9223372036854775808 := by
  have habs : b * b = b.natAbs * b.natAbs := Int.natAbs_mul_self.symm
  intro h
  rcases le_or_gt b.natAbs 3037000499 with hsmall | hlarge
  · have hle := Nat.mul_le_mul hsmall hsmall
    omega
  · have hle := Nat.mul_le_mul hlarge hlarge
    omega

/-- Multiples of a square that does not fit do not fit: none of them is the least word. -/
theorem not_fits_mul_square {b m : Int} (h : ¬ Fits (b * b)) (hm : m ≠ 0) : ¬ Fits (m * (b * b)) := by
  have hnonneg := mul_self_nonneg b
  have hne := mul_self_ne b
  unfold Fits at h ⊢
  rcases Int.lt_or_gt_of_ne hm with hm | hm
  · have hle : m * (b * b) ≤ -1 * (b * b) := Int.mul_le_mul_of_nonneg_right (by omega) hnonneg
    omega
  · have hle : 1 * (b * b) ≤ m * (b * b) := Int.mul_le_mul_of_nonneg_right (by omega) hnonneg
    omega

/-- The base is squared.  If its square does not fit, then neither does the power. -/
theorem bind_square_eq {acc base : Int64} {k : Nat} (hk : k ≠ 0) (hacc : acc ≠ 0 ∨ base = 0)
    (ih : ∀ square : Int64, acc ≠ 0 ∨ square = 0 → powFrom acc square k = word? (acc.toInt * square.toInt ^ k)) :
    ((mul base base).bind fun square => powFrom acc square k) = word? (acc.toInt * base.toInt ^ (2 * k)) := by
  have hpower : acc.toInt * base.toInt ^ (2 * k) = acc.toInt * (base.toInt * base.toInt) ^ k := by ring
  rw [hpower]
  cases hsquare : mul base base with
  | some square =>
    have hsquare' : square.toInt = base.toInt * base.toInt := toInt_of_word? hsquare
    rw [← hsquare']
    refine ih square (hacc.imp_right fun hbase => ?_)
    rw [← Int64.toInt_inj, hsquare', hbase]
    rfl
  | none =>
    have hnot := word?_eq_none_iff_not_fits.mp hsquare
    have hbase : base.toInt ≠ 0 := by
      intro hzero
      rw [hzero] at hnot
      exact hnot (by decide)
    have hacc' : acc ≠ 0 := hacc.resolve_right fun h => hbase (by rw [h]; rfl)
    obtain ⟨j, rfl⟩ : ∃ j, k = j + 1 := ⟨k - 1, by omega⟩
    have hrest : 0 < (base.toInt * base.toInt) ^ j := pow_pos (mul_self_pos.mpr hbase) j
    symm
    rw [pow_succ', ← mul_assoc]
    exact word?_eq_none_iff_not_fits.mpr (not_fits_mul (not_fits_mul_square hnot (toInt_ne_zero hacc')) hrest)

/-- Squaring comes to the power, if it fits: what has left the range once does not come back, unless it is
multiplied by zero. -/
theorem powFrom_eq (acc base : Int64) (n : Nat) (hacc : acc ≠ 0 ∨ base = 0) :
    powFrom acc base n = word? (acc.toInt * base.toInt ^ n) := by
  fun_induction powFrom acc base n with
  | case1 acc base => rw [pow_zero, mul_one, word?_toInt]
  | case2 acc base n hn ih =>
    have hsquare (acc : Int64) (hacc : acc ≠ 0 ∨ base = 0) (hone : n ≠ 1) :=
      bind_square_eq (by omega : n / 2 ≠ 0) hacc fun square => ih acc hone square
    rcases Nat.mod_two_eq_zero_or_one n with heven | hodd
    · rw [if_neg (by omega), Option.bind_some, if_neg (by omega), hsquare acc hacc (by omega)]
      congr 3
      omega
    · have hpower : acc.toInt * base.toInt ^ n = acc.toInt * base.toInt * base.toInt ^ (2 * (n / 2)) := by
        rw [mul_assoc, ← pow_succ']
        congr 2
        omega
      rw [if_pos hodd, hpower]
      cases hmul : mul acc base with
      | some product =>
        have hproduct : product.toInt = acc.toInt * base.toInt := toInt_of_word? hmul
        rw [Option.bind_some, ← hproduct]
        split
        · rename_i hone
          rw [hone, pow_zero, mul_one, word?_toInt]
        · rename_i hone
          refine hsquare product (Decidable.or_iff_not_imp_right.mpr fun hbase hzero => ?_) hone
          rw [hzero] at hproduct
          have hacc' := toInt_ne_zero (hacc.resolve_right hbase)
          exact mul_ne_zero hacc' (toInt_ne_zero hbase) hproduct.symm
      | none =>
        have hnot := word?_eq_none_iff_not_fits.mp hmul
        have hbase : base.toInt ≠ 0 := by
          intro hzero
          rw [hzero, mul_zero] at hnot
          exact hnot (by decide)
        symm
        refine word?_eq_none_iff_not_fits.mpr (not_fits_mul hnot ?_)
        rw [pow_mul, sq]
        exact pow_pos (mul_self_pos.mpr hbase) _

/-- The power, if it fits. -/
theorem pow_eq (a : Int64) (n : Nat) : pow a n = word? (a.toInt ^ n) := by
  rw [pow, powFrom_eq 1 a n (.inl (by decide)), Int64.toInt_one, one_mul]

/-- A base other than `-1`, `0` and `1` has left the range by its 64th power. -/
theorem not_fits_pow {a : Int} {n : Nat} (ha : 2 ≤ a.natAbs) (hn : 64 ≤ n) : ¬ Fits (a ^ n) := by
  have hlarge : 2 ^ 64 ≤ (a ^ n).natAbs := by
    rw [Int.natAbs_pow]
    exact (Nat.pow_le_pow_right (by decide) hn).trans (Nat.pow_le_pow_left ha n)
  unfold Fits
  omega

end ProgramBreeding.Checked

import Mathlib.Algebra.Order.Field.Rat
import Mathlib.Algebra.Order.Field.Power
import Mathlib.Tactic.FieldSimp
import Mathlib.Tactic.Linarith
import Mathlib.Tactic.Positivity
import Mathlib.Tactic.Ring
import ProgramBreeding.Proofs.Number.Numeral

/-!
# Rounding to the nearest double

A fraction becomes the double in whose interval of reals it lies.

## Main definitions

* `fractionValue` — a fraction as a rational number.
* `ReadsAs` — the rational numbers that are nearest to a double, in units of its last
  place; the ends count iff the significand is even.

## Main results

* `nearestMagnitude_eq` — the last place of the double is the one that leaves it 53 binary
  places.
* `nearest_eq_of_readsAs` — every fraction in the interval of a double becomes it.
-/

namespace ProgramBreeding.Number

/-! ### Fractions as rational numbers -/

/-- The value of a fraction. -/
def fractionValue (v : Nat × Nat) : ℚ := v.1 / v.2

theorem shift_eq (n places : Nat) : shift n places = n * 2 ^ places := by
  unfold shift
  split
  · rename_i hplaces
    rw [hplaces, Nat.pow_zero, Nat.mul_one]
  · exact Nat.shiftLeft_eq n places

theorem scaleFraction_den_pos {num den : Nat} (hden : 0 < den) (exponent : Int) :
    0 < (scaleFraction num den exponent).2 := by
  unfold scaleFraction
  split
  · exact hden
  · rw [shift_eq]
    positivity

theorem fractionValue_scaleFraction (num den : Nat) (exponent : Int) :
    fractionValue (scaleFraction num den exponent) = num / den * 2 ^ exponent := by
  unfold scaleFraction fractionValue
  split
  · rename_i hexponent
    obtain ⟨n, rfl⟩ := Int.eq_ofNat_of_zero_le hexponent
    simp only [shift_eq, Int.toNat_natCast, zpow_natCast]
    push_cast
    ring
  · rename_i hexponent
    obtain ⟨n, rfl⟩ : ∃ n : Nat, exponent = -n := ⟨(-exponent).toNat, by omega⟩
    simp only [shift_eq, neg_neg, Int.toNat_natCast, zpow_neg, zpow_natCast]
    push_cast
    rw [div_mul_eq_div_div, div_eq_mul_inv]

theorem powerFraction_den_pos (value : Nat) {base : Nat} (hbase : 0 < base) (exponent : Int) :
    0 < (powerFraction value base exponent).2 := by
  unfold powerFraction
  split
  · exact Nat.one_pos
  · exact Nat.pow_pos hbase

theorem fractionValue_powerFraction (value base : Nat) (exponent : Int) :
    fractionValue (powerFraction value base exponent) = value * (base : ℚ) ^ exponent := by
  unfold powerFraction fractionValue
  split
  · rename_i hexponent
    obtain ⟨n, rfl⟩ := Int.eq_ofNat_of_zero_le hexponent
    simp only [Nat.pow_eq, Int.toNat_natCast, zpow_natCast]
    push_cast
    ring
  · rename_i hexponent
    obtain ⟨n, rfl⟩ : ∃ n : Nat, exponent = -n := ⟨(-exponent).toNat, by omega⟩
    simp only [Nat.pow_eq, neg_neg, Int.toNat_natCast, zpow_neg, zpow_natCast]
    push_cast
    rw [div_eq_mul_inv]

theorem fractionLE_iff {a b : Nat × Nat} (ha : 0 < a.2) (hb : 0 < b.2) :
    fractionLE a b = true ↔ fractionValue a ≤ fractionValue b := by
  unfold fractionLE fractionValue
  rw [decide_eq_true_iff, div_le_div_iff₀ (by exact_mod_cast ha) (by exact_mod_cast hb)]
  exact_mod_cast Iff.rfl

theorem fractionLT_iff {a b : Nat × Nat} (ha : 0 < a.2) (hb : 0 < b.2) :
    fractionLT a b = true ↔ fractionValue a < fractionValue b := by
  unfold fractionLT fractionValue
  rw [decide_eq_true_iff, div_lt_div_iff₀ (by exact_mod_cast ha) (by exact_mod_cast hb)]
  exact_mod_cast Iff.rfl

/-! ### Halves -/

/-- The whole number that a fraction lies at most a half away from, and less than a half if
it is odd. -/
theorem roundHalfEven_eq {num den n : Nat} (hlow : 2 * n * den ≤ 2 * num + den)
    (hhigh : 2 * num ≤ 2 * n * den + den)
    (hodd : n % 2 = 1 → 2 * n * den < 2 * num + den ∧ 2 * num < 2 * n * den + den) (hden : 0 < den) :
    roundHalfEven num den = n := by
  have hsplit : den * (num / den) + num % den = num := Nat.div_add_mod num den
  have hrest : num % den < den := Nat.mod_lt _ hden
  rw [show 2 * n * den = 2 * (den * n) from by ring] at hlow hhigh hodd
  have hle : num / den ≤ n := by
    by_contra hlt
    have := Nat.mul_le_mul_left den (show n + 1 ≤ num / den by omega)
    rw [Nat.mul_add, Nat.mul_one] at this
    omega
  have hge : n ≤ num / den + 1 := by
    by_contra hlt
    have := Nat.mul_le_mul_left den (show num / den + 2 ≤ n by omega)
    rw [Nat.mul_add] at this
    omega
  unfold roundHalfEven
  extract_lets whole twice
  obtain hn | hn : whole = n ∨ whole + 1 = n := by omega
  · have : den * (num / den) = den * n := congrArg (den * ·) hn
    split
    · exact hn
    · split <;> omega
  · have : den * n = den * (num / den) + den := by rw [← hn, Nat.mul_add, Nat.mul_one]
    split
    · omega
    · split <;> omega

theorem roundHalfEven_eq_of_value {v : Nat × Nat} (hden : 0 < v.2) {n : Nat}
    (hlow : n - 1 / 2 ≤ fractionValue v) (hhigh : fractionValue v ≤ n + 1 / 2)
    (hodd : n % 2 = 1 → (n : ℚ) - 1 / 2 < fractionValue v ∧ fractionValue v < n + 1 / 2) :
    roundHalfEven v.1 v.2 = n := by
  have hpos : (0 : ℚ) < v.2 := by exact_mod_cast hden
  have hnum : fractionValue v * v.2 = v.1 := div_mul_cancel₀ _ hpos.ne'
  refine roundHalfEven_eq ?_ ?_ (fun h => ⟨?_, ?_⟩) hden
  · have := mul_le_mul_of_nonneg_right hlow hpos.le
    rw [hnum] at this
    exact_mod_cast (show (2 * n * v.2 : ℚ) ≤ 2 * v.1 + v.2 from by linarith)
  · have := mul_le_mul_of_nonneg_right hhigh hpos.le
    rw [hnum] at this
    exact_mod_cast (show (2 * v.1 : ℚ) ≤ 2 * n * v.2 + v.2 from by linarith)
  · have := mul_lt_mul_of_pos_right (hodd h).1 hpos
    rw [hnum] at this
    exact_mod_cast (show (2 * n * v.2 : ℚ) < 2 * v.1 + v.2 from by linarith)
  · have := mul_lt_mul_of_pos_right (hodd h).2 hpos
    rw [hnum] at this
    exact_mod_cast (show (2 * v.1 : ℚ) < 2 * n * v.2 + v.2 from by linarith)

/-! ### The last place -/

/-- A place is the last one of the double nearest to a value if it leaves 53 binary places
of it, or fewer at the least place of all. -/
structure IsLastPlace (place : Int) (value : ℚ) : Prop where
  least : -1074 ≤ place
  low : place = -1074 ∨ significandCount * (2 : ℚ) ^ place ≤ value
  high : value < 2 * significandCount * (2 : ℚ) ^ place

theorem two_zpow_le {m n : Int} (h : m ≤ n) : (2 : ℚ) ^ m ≤ 2 ^ n :=
  zpow_le_zpow_right₀ (by norm_num) h

theorem two_zpow_succ (n : Int) : (2 : ℚ) ^ (n + 1) = 2 * 2 ^ n := by
  rw [zpow_add_one₀ (by norm_num), mul_comm]

theorem two_zpow_pos (n : Int) : (0 : ℚ) < 2 ^ n := zpow_pos (by norm_num) n

/-- The binary places of a double. -/
theorem significandCount_eq : (significandCount : ℚ) = 2 ^ (52 : Int) := by
  norm_num [significandCount]

theorem IsLastPlace.unique {p q : Int} {value : ℚ} (hp : IsLastPlace p value) (hq : IsLastPlace q value) :
    p = q := by
  have key : ∀ {p q : Int}, IsLastPlace p value → IsLastPlace q value → ¬ p < q := by
    intro p q hp hq hlt
    have hleast := hp.least
    -- A lower place leaves at least one binary place too many.
    have hlow : significandCount * (2 : ℚ) ^ q ≤ value := hq.low.resolve_left (by omega)
    have hstep : (2 : ℚ) * 2 ^ p ≤ 2 ^ q := by
      rw [← two_zpow_succ]
      exact two_zpow_le (by omega)
    have hcount : (0 : ℚ) < significandCount := by rw [significandCount_eq]; positivity
    have := mul_le_mul_of_nonneg_left hstep hcount.le
    linarith [hp.high]
  have := key hp hq
  have := key hq hp
  omega

/-- A quotient lies within a factor of two of the power of two of its logarithms. -/
theorem log2_bounds {num den : Nat} (hnum : 0 < num) (hden : 0 < den) :
    (2 : ℚ) ^ ((num.log2 : Int) - den.log2 - 1) < num / den ∧
      (num / den : ℚ) < 2 ^ ((num.log2 : Int) - den.log2 + 1) := by
  have hnumLow : ((2 : ℚ)) ^ (num.log2 : Int) ≤ num := by
    rw [zpow_natCast]; exact_mod_cast Nat.log2_self_le hnum.ne'
  have hnumHigh : (num : ℚ) < 2 ^ ((num.log2 : Int) + 1) := by
    rw [← Nat.cast_succ, zpow_natCast]; exact_mod_cast Nat.lt_log2_self
  have hdenLow : ((2 : ℚ)) ^ (den.log2 : Int) ≤ den := by
    rw [zpow_natCast]; exact_mod_cast Nat.log2_self_le hden.ne'
  have hdenHigh : (den : ℚ) < 2 ^ ((den.log2 : Int) + 1) := by
    rw [← Nat.cast_succ, zpow_natCast]; exact_mod_cast Nat.lt_log2_self
  have hpos : (0 : ℚ) < den := by exact_mod_cast hden
  constructor
  · rw [lt_div_iff₀ hpos]
    calc (2 : ℚ) ^ ((num.log2 : Int) - den.log2 - 1) * den
        < 2 ^ ((num.log2 : Int) - den.log2 - 1) * 2 ^ ((den.log2 : Int) + 1) :=
          mul_lt_mul_of_pos_left hdenHigh (two_zpow_pos _)
      _ = 2 ^ (num.log2 : Int) := by rw [← zpow_add₀ (by norm_num)]; congr 1; ring
      _ ≤ num := hnumLow
  · rw [div_lt_iff₀ hpos]
    calc (num : ℚ) < 2 ^ ((num.log2 : Int) + 1) := hnumHigh
      _ = 2 ^ ((num.log2 : Int) - den.log2 + 1) * 2 ^ (den.log2 : Int) := by
          rw [← zpow_add₀ (by norm_num)]; congr 1; ring
      _ ≤ 2 ^ ((num.log2 : Int) - den.log2 + 1) * den :=
          mul_le_mul_of_nonneg_left hdenLow (two_zpow_pos _).le

theorem div_lt_significandCount_iff {v : Nat × Nat} (hden : 0 < v.2) :
    v.1 / v.2 < significandCount ↔ fractionValue v < significandCount := by
  have hpos : (0 : ℚ) < v.2 := by exact_mod_cast hden
  rw [Nat.div_lt_iff_lt_mul hden, fractionValue, div_lt_iff₀ hpos]
  exact_mod_cast Iff.rfl

/-- Scaled by its last place, a value is rounded to a whole number of units of it. -/
theorem nearestMagnitude_eq {num den : Nat} (hnum : 0 < num) (hden : 0 < den) {place : Int}
    (hplace : IsLastPlace place (num / den)) :
    nearestMagnitude num den 0 = magnitudeAt (place + 1074) (scaleFraction num den (-place)) := by
  obtain ⟨hlow, hhigh⟩ := log2_bounds hnum hden
  unfold nearestMagnitude
  rw [if_neg hnum.ne']
  extract_lets least estimate v
  have hleast : least = -1074 := by omega
  have hestimate : estimate = max (-1074) ((num.log2 : Int) - den.log2 - 52) := by
    show max least _ = _
    rw [hleast]
  have hvalue : fractionValue v = num / den * 2 ^ (-estimate) := fractionValue_scaleFraction _ _ _
  have hunits : num / den = fractionValue v * (2 : ℚ) ^ estimate := by
    rw [hvalue, mul_assoc, ← zpow_add₀ (by norm_num), neg_add_cancel, zpow_zero, mul_one]
  have hcut : v.1 / v.2 < significandCount ↔ (num / den : ℚ) < significandCount * 2 ^ estimate := by
    rw [div_lt_significandCount_iff (scaleFraction_den_pos hden _), hunits]
    exact (mul_lt_mul_iff_left₀ (two_zpow_pos estimate)).symm
  -- the logarithms are off by one place at most
  have hestimateHigh : (num / den : ℚ) < 2 * significandCount * 2 ^ estimate := by
    refine hhigh.trans_le ?_
    rw [significandCount_eq, mul_assoc, ← zpow_add₀ (by norm_num), ← two_zpow_succ]
    exact two_zpow_le (by omega)
  have hestimateLow : estimate = -1074 ∨ significandCount * (2 : ℚ) ^ (estimate - 1) ≤ num / den := by
    by_cases h : estimate = -1074
    · exact .inl h
    · refine .inr (le_trans ?_ hlow.le)
      rw [significandCount_eq, ← zpow_add₀ (by norm_num)]
      exact two_zpow_le (by omega)
  by_cases hsmall : (num / den : ℚ) < significandCount * 2 ^ estimate ∧ least < estimate
  -- Too few binary places are left of the value: its last place is one below the estimate.
  · have hbefore : IsLastPlace (estimate - 1) (num / den) := by
      refine ⟨by omega, .inr (hestimateLow.resolve_left (by omega)), ?_⟩
      have := two_zpow_succ (estimate - 1)
      rw [sub_add_cancel] at this
      rw [mul_right_comm, ← this, mul_comm]
      exact hsmall.1
    have heq := hplace.unique hbefore
    rw [if_pos (by simp [hcut.mpr hsmall.1, hsmall.2]), heq, hleast]
    congr 2
    ring
  · have hthere : IsLastPlace estimate (num / den) := by
      refine ⟨by omega, ?_, hestimateHigh⟩
      by_cases h : estimate = -1074
      · exact .inl h
      · exact .inr (not_lt.mp fun hlt => hsmall ⟨hlt, by omega⟩)
    have heq := hplace.unique hthere
    rw [if_neg (by simpa [hcut, and_comm] using hsmall), heq, hleast]
    rfl

/-! ### The interval of a double -/

/-- The significands and exponents of the positive finite doubles. -/
structure IsPositiveFinite (significand : Nat) (exponent : Int) : Prop where
  positive : 0 < significand
  bound : significand < 2 * significandCount
  least : -1074 ≤ exponent
  full : exponent = -1074 ∨ significandCount ≤ significand
  finite : (exponent + 1074).toNat * significandCount + significand < infinityMagnitude

/-- How far below a double its interval reaches, in units of the last place.  Below a power
of two the doubles lie twice as close. -/
def reachBelow (significand : Nat) (exponent : Int) : ℚ :=
  if significand = significandCount ∧ -1074 < exponent then 1 / 4 else 1 / 2

/-- The rational numbers nearest to the double `significand * 2 ^ exponent`. -/
structure ReadsAs (significand : Nat) (exponent : Int) (value : ℚ) : Prop where
  low : (significand - reachBelow significand exponent) * (2 : ℚ) ^ exponent ≤ value
  high : value ≤ (significand + 1 / 2) * (2 : ℚ) ^ exponent
  inside : significand % 2 = 1 →
    (significand - reachBelow significand exponent) * (2 : ℚ) ^ exponent < value ∧
      value < (significand + 1 / 2) * (2 : ℚ) ^ exponent

theorem reachBelow_le (significand : Nat) (exponent : Int) : reachBelow significand exponent ≤ 1 / 2 := by
  unfold reachBelow
  split <;> norm_num

variable {significand num den : Nat} {exponent : Int} {value : ℚ}

/-- Seen from its own last place, the interval reaches a half in both directions. -/
theorem ReadsAs.roundHalfEven_eq (h : ReadsAs significand exponent (num / den)) (hden : 0 < den) :
    roundHalfEven (scaleFraction num den (-exponent)).1 (scaleFraction num den (-exponent)).2 = significand := by
  have hpow : (2 : ℚ) ^ exponent * 2 ^ (-exponent) = 1 := by
    rw [← zpow_add₀ (by norm_num), add_neg_cancel, zpow_zero]
  have hunits : ∀ c : ℚ, c * 2 ^ exponent * 2 ^ (-exponent) = c := fun c => by
    rw [mul_assoc, hpow, mul_one]
  have hreach := reachBelow_le significand exponent
  have hpos := two_zpow_pos (-exponent)
  refine roundHalfEven_eq_of_value (scaleFraction_den_pos hden _) ?_ ?_ (fun hodd => ⟨?_, ?_⟩) <;>
    rw [fractionValue_scaleFraction]
  · have := mul_le_mul_of_nonneg_right h.low hpos.le
    rw [hunits] at this
    linarith
  · have := mul_le_mul_of_nonneg_right h.high hpos.le
    rwa [hunits] at this
  · have := mul_lt_mul_of_pos_right (h.inside hodd).1 hpos
    rw [hunits] at this
    linarith
  · have := mul_lt_mul_of_pos_right (h.inside hodd).2 hpos
    rwa [hunits] at this

/-- Just below a power of two the numbers nearest to it are rounded up, to twice the least
significand of the last place there. -/
theorem ReadsAs.roundHalfEven_below (hx : IsPositiveFinite significand exponent)
    (h : ReadsAs significand exponent (num / den)) (hden : 0 < den) (hexponent : exponent ≠ -1074)
    (hbelow : (num / den : ℚ) < significandCount * 2 ^ exponent) :
    significand = significandCount ∧ IsLastPlace (exponent - 1) (num / den) ∧
      roundHalfEven (scaleFraction num den (-(exponent - 1))).1 (scaleFraction num den (-(exponent - 1))).2 =
        2 * significandCount := by
  have hleast := hx.least
  have hpow := two_zpow_pos exponent
  have hhalf : (2 : ℚ) ^ exponent = 2 * 2 ^ (exponent - 1) := by
    rw [← two_zpow_succ, sub_add_cancel]
  have hfull : significandCount ≤ significand := hx.full.resolve_left hexponent
  -- No other significand is within half a place of what lies below the power of two.
  have hsignificand : significand = significandCount := by
    have hlt : (significand - 1 / 2 : ℚ) < significandCount := by
      refine lt_of_mul_lt_mul_right (lt_of_le_of_lt ?_ hbelow) hpow.le
      refine le_trans (mul_le_mul_of_nonneg_right ?_ hpow.le) h.low
      linarith [reachBelow_le significand exponent]
    have : significand < significandCount + 1 := by
      exact_mod_cast (show (significand : ℚ) < significandCount + 1 by linarith)
    omega
  have hlow : (significandCount - 1 / 4) * (2 : ℚ) ^ exponent ≤ num / den := by
    have := h.low
    rwa [hsignificand, reachBelow, if_pos ⟨rfl, by omega⟩] at this
  have hcount : (1 : ℚ) ≤ significandCount := by norm_num [significandCount]
  refine ⟨hsignificand, ⟨by omega, .inr ?_, ?_⟩, ?_⟩
  · refine le_trans ?_ hlow
    rw [hhalf, ← mul_assoc]
    exact mul_le_mul_of_nonneg_right (by linarith) (two_zpow_pos _).le
  · rwa [mul_right_comm, ← hhalf, mul_comm]
  · have hunits : (2 : ℚ) ^ exponent * 2 ^ (-(exponent - 1)) = 2 := by
      rw [← zpow_add₀ (by norm_num)]
      norm_num
    have hpos := two_zpow_pos (-(exponent - 1))
    refine roundHalfEven_eq_of_value (scaleFraction_den_pos hden _) ?_ ?_ (fun hodd => ?_)
    · have := mul_le_mul_of_nonneg_right hlow hpos.le
      rw [mul_assoc, hunits] at this
      rw [fractionValue_scaleFraction]
      push_cast
      linarith
    · have := mul_lt_mul_of_pos_right hbelow hpos
      rw [mul_assoc, hunits] at this
      rw [fractionValue_scaleFraction]
      push_cast
      linarith
    · omega

/-- Every fraction in the interval of a positive double is rounded to it. -/
theorem nearestMagnitude_of_readsAs (hx : IsPositiveFinite significand exponent) (hnum : 0 < num)
    (hden : 0 < den) (h : ReadsAs significand exponent (num / den)) :
    nearestMagnitude num den 0 = (exponent + 1074).toNat * significandCount + significand := by
  have hfinite := hx.finite
  have hleast := hx.least
  by_cases hbelow : exponent ≠ -1074 ∧ (num / den : ℚ) < significandCount * 2 ^ exponent
  · obtain ⟨hsignificand, hplace, hround⟩ := h.roundHalfEven_below hx hden hbelow.1 hbelow.2
    have hstep : (exponent + 1074).toNat = (exponent - 1 + 1074).toNat + 1 := by omega
    have hsum : (exponent + 1074).toNat * significandCount =
        (exponent - 1 + 1074).toNat * significandCount + significandCount := by
      rw [hstep, Nat.succ_mul]
    rw [nearestMagnitude_eq hnum hden hplace, magnitudeAt, hround, hsum, hsignificand, Nat.add_assoc,
      ← Nat.two_mul]
    rw [hsum, hsignificand, Nat.add_assoc, ← Nat.two_mul] at hfinite
    exact Nat.min_eq_left hfinite.le
  · have hplace : IsLastPlace exponent (num / den) := by
      refine ⟨hleast, ?_, h.high.trans_lt ?_⟩
      · by_cases hexponent : exponent = -1074
        · exact .inl hexponent
        · exact .inr (not_lt.mp fun hlt => hbelow ⟨hexponent, hlt⟩)
      · refine mul_lt_mul_of_pos_right ?_ (two_zpow_pos exponent)
        have hbound : (significand : ℚ) + 1 ≤ 2 * significandCount := by exact_mod_cast hx.bound
        linarith
    rw [nearestMagnitude_eq hnum hden hplace, magnitudeAt, h.roundHalfEven_eq hden]
    exact Nat.min_eq_left hfinite.le

/-! ### The parts of a double -/

section Parts

variable {x : Double}

theorem toNat_magnitude_of_sign (hsign : x.isNegative = false) : x.magnitude.toNat = x.bits.toNat := by
  have hlt : ¬ (0x8000000000000000 : UInt64) ≤ x.bits := of_decide_eq_false hsign
  rw [UInt64.le_iff_toNat_le] at hlt
  show (x.bits.toNat &&& (2 ^ 63 - 1)) = _
  rw [Nat.and_two_pow_sub_one_eq_mod]
  exact Nat.mod_eq_of_lt (Nat.not_le.mp hlt)

theorem exponentField_eq (x : Double) : x.exponentField = x.magnitude.toNat / significandCount := by
  show x.magnitude.toNat >>> 52 = _
  rw [Nat.shiftRight_eq_div_pow]
  rfl

theorem significandField_eq (x : Double) : x.significandField = x.magnitude.toNat % significandCount := by
  show (x.magnitude.toNat &&& (2 ^ 52 - 1)) = _
  rw [Nat.and_two_pow_sub_one_eq_mod]
  rfl

/-- A positive finite double has the parts of one, and its magnitude counts the doubles up
to it. -/
theorem isPositiveFinite_parts (hfinite : x.isFinite = true) (hzero : x.isZero = false) :
    IsPositiveFinite x.significand x.exponent ∧
      x.magnitude.toNat = (x.exponent + 1074).toNat * significandCount + x.significand := by
  have hlt : x.magnitude.toNat < infinityMagnitude := UInt64.lt_iff_toNat_lt.mp (of_decide_eq_true hfinite)
  have hpos : x.magnitude.toNat ≠ 0 := fun h =>
    (beq_eq_false_iff_ne.mp hzero) (UInt64.toNat_inj.mp h)
  have hsplit := Nat.div_add_mod x.magnitude.toNat significandCount
  have hrest := Nat.mod_lt x.magnitude.toNat (show 0 < significandCount by decide)
  rw [← exponentField_eq, ← significandField_eq] at hsplit
  rw [← significandField_eq] at hrest
  have hmagnitude : x.magnitude.toNat = (x.exponent + 1074).toNat * significandCount + x.significand := by
    unfold Double.exponent Double.significand
    split
    · rename_i hfield
      rw [hfield, Nat.mul_zero] at hsplit
      rw [show (-1074 + 1074 : Int).toNat = 0 from rfl, Nat.zero_mul]
      omega
    · rename_i hfield
      obtain ⟨n, hn⟩ := Nat.exists_eq_succ_of_ne_zero hfield
      rw [hn, Nat.mul_comm, Nat.succ_mul] at hsplit
      rw [hn, show ((n.succ : Nat) - 1075 + 1074 : Int).toNat = n by omega]
      omega
  refine ⟨⟨?_, ?_, ?_, ?_, hmagnitude ▸ hlt⟩, hmagnitude⟩
  · unfold Double.significand
    split
    · rename_i hfield
      rw [hfield, Nat.mul_zero] at hsplit
      omega
    · exact Nat.add_pos_left (by decide) _
  · unfold Double.significand
    split <;> omega
  · unfold Double.exponent
    split <;> omega
  · unfold Double.significand Double.exponent
    split
    · exact .inl rfl
    · exact .inr (Nat.le_add_right _ _)

/-- Every fraction in the interval of a positive finite double becomes that double. -/
theorem nearest_eq_of_readsAs (hfinite : x.isFinite = true) (hsign : x.isNegative = false)
    (hzero : x.isZero = false) (hnum : 0 < num) (hden : 0 < den)
    (h : ReadsAs x.significand x.exponent (num / den)) : Double.nearest false num den = x := by
  obtain ⟨hparts, hmagnitude⟩ := isPositiveFinite_parts hfinite hzero
  show Double.ofMagnitude false (nearestMagnitude num den 0).toUInt64 = x
  rw [nearestMagnitude_of_readsAs hparts hnum hden h, ← hmagnitude, toNat_magnitude_of_sign hsign]
  show Double.mk x.bits.toNat.toUInt64 = x
  rw [Nat.toUInt64, UInt64.ofNat_toNat]

end Parts

end ProgramBreeding.Number

import ProgramBreeding.Proofs.Number.Rounding

/-!
# Shortest decimals lie near their doubles

Seventeen digits are enough to find a decimal that is read back as a double.

## Main results

* `ten_zpow_leadingExponent_le` — the leading digit of a double is not placed too high.
* `readsAs_shortest` — the shortest decimal of a double lies in the interval of the double.
-/

namespace ProgramBreeding.Number

variable {significand : Nat} {exponent : Int}

/-! ### The interval -/

theorem low_readingInterval (hpos : 0 < significand) (exponent : Int) :
    0 < (readingInterval significand exponent).low.2 ∧
      fractionValue (readingInterval significand exponent).low =
        (significand - reachBelow significand exponent) * 2 ^ exponent := by
  unfold readingInterval reachBelow
  refine ⟨powerFraction_den_pos _ (by decide) _, ?_⟩
  have hquarter : (2 : ℚ) ^ (exponent - 2) = 2 ^ exponent / 4 := by
    rw [zpow_sub₀ (by norm_num)]
    norm_num
  rw [fractionValue_powerFraction, Nat.cast_sub (by split <;> omega), Nat.cast_ofNat, hquarter]
  push_cast
  split <;> ring

theorem high_readingInterval (significand : Nat) (exponent : Int) :
    0 < (readingInterval significand exponent).high.2 ∧
      fractionValue (readingInterval significand exponent).high = (significand + 1 / 2) * 2 ^ exponent := by
  unfold readingInterval
  refine ⟨powerFraction_den_pos _ (by decide) _, ?_⟩
  have hquarter : (2 : ℚ) ^ (exponent - 2) = 2 ^ exponent / 4 := by
    rw [zpow_sub₀ (by norm_num)]
    norm_num
  rw [fractionValue_powerFraction, Nat.cast_ofNat, hquarter]
  push_cast
  ring

/-- The interval that is searched holds the fractions nearest to the double. -/
theorem contains_readingInterval_iff (hpos : 0 < significand) {v : Nat × Nat} (hden : 0 < v.2) :
    (readingInterval significand exponent).contains v = true ↔
      ReadsAs significand exponent (fractionValue v) := by
  obtain ⟨hlowDen, hlow⟩ := low_readingInterval hpos exponent
  obtain ⟨hhighDen, hhigh⟩ := high_readingInterval significand exponent
  have hclosed : (readingInterval significand exponent).closed = decide (significand % 2 = 0) := rfl
  unfold ReadingInterval.contains
  rw [hclosed]
  split
  · rename_i heven
    rw [Bool.and_eq_true, fractionLE_iff hlowDen hden, fractionLE_iff hden hhighDen, hlow, hhigh]
    have heven := of_decide_eq_true heven
    exact ⟨fun h => ⟨h.1, h.2, fun hodd => by omega⟩, fun h => ⟨h.low, h.high⟩⟩
  · rename_i hodd
    rw [Bool.and_eq_true, fractionLT_iff hlowDen hden, fractionLT_iff hden hhighDen, hlow, hhigh]
    have hodd : significand % 2 = 1 := by
      rw [decide_eq_true_iff] at hodd
      omega
    exact ⟨fun h => ⟨h.1.le, h.2.le, fun _ => h⟩, fun h => h.inside hodd⟩

/-! ### Grids -/

/-- A point of a grid that lies in the interval. -/
theorem contains_of_gridPoint {tie : Tie} {interval : ReadingInterval} {v : Nat × Nat} {place : Int}
    {d : Decimal} (h : gridPoint tie interval v place = some d) :
    interval.contains (powerFraction d.coefficient 10 d.exponent) = true := by
  unfold gridPoint at h
  split at h
  extract_lets lower twice inside upperIsNearer at h
  split at h
  · rename_i hlower hupper
    obtain rfl := Option.some.inj h
    dsimp only
    split
    · exact hupper
    · exact hlower
  · rename_i hlower _
    obtain rfl := Option.some.inj h
    exact hlower
  · rename_i _ hupper
    obtain rfl := Option.some.inj h
    exact hupper
  · cases h

/-- The two neighbours of a fraction on a grid, either of which is found if it lies in the
interval. -/
theorem exists_neighbours (tie : Tie) (interval : ReadingInterval) {v : Nat × Nat} (hden : 0 < v.2)
    (place : Int) :
    ∃ lower : Nat, lower * (10 : ℚ) ^ place ≤ fractionValue v ∧
      fractionValue v < (lower + 1) * (10 : ℚ) ^ place ∧
      (interval.contains (powerFraction lower 10 place) = true ∨
          interval.contains (powerFraction (lower + 1) 10 place) = true →
        gridPoint tie interval v place ≠ none) := by
  unfold gridPoint
  split
  rename_i num den hscaled
  extract_lets lower twice inside upperIsNearer
  have hpos : (0 : ℚ) < 10 ^ place := zpow_pos (by norm_num) _
  -- The fraction in units of the grid: the numerator or the denominator is scaled, after the sign of the place.
  obtain ⟨hdenPos, hvalue⟩ : 0 < den ∧ fractionValue v = (num / den : ℚ) * 10 ^ place := by
    have hvPos : (0 : ℚ) < v.2 := by exact_mod_cast hden
    split at hscaled
    · rename_i hplace
      obtain ⟨n, rfl⟩ := Int.eq_ofNat_of_zero_le hplace
      obtain ⟨rfl, rfl⟩ := Prod.mk.inj hscaled
      refine ⟨Nat.mul_pos hden (Nat.pow_pos (by decide)), ?_⟩
      rw [Nat.pow_eq, Int.toNat_natCast, zpow_natCast, fractionValue]
      push_cast
      field_simp
    · rename_i hplace
      obtain ⟨n, rfl⟩ : ∃ n : Nat, place = -n := ⟨(-place).toNat, by omega⟩
      obtain ⟨rfl, rfl⟩ := Prod.mk.inj hscaled
      refine ⟨hden, ?_⟩
      rw [Nat.pow_eq, neg_neg, Int.toNat_natCast, zpow_neg, zpow_natCast, fractionValue]
      push_cast
      field_simp
  have hden' : (0 : ℚ) < den := by exact_mod_cast hdenPos
  refine ⟨lower, ?_, ?_, ?_⟩
  · rw [hvalue]
    refine mul_le_mul_of_nonneg_right ?_ hpos.le
    rw [le_div_iff₀ hden']
    exact_mod_cast Nat.div_mul_le_self num den
  · rw [hvalue]
    refine mul_lt_mul_of_pos_right ?_ hpos
    rw [div_lt_iff₀ hden']
    exact_mod_cast Nat.lt_mul_of_div_lt (Nat.lt_succ_self lower) hdenPos
  · rintro (h | h)
    · split
      · exact Option.some_ne_none _
      · exact Option.some_ne_none _
      · exact Option.some_ne_none _
      · rename_i hlower _
        exact absurd (h.symm.trans hlower) (by decide)
    · split
      · exact Option.some_ne_none _
      · exact Option.some_ne_none _
      · exact Option.some_ne_none _
      · rename_i _ hupper
        exact absurd (h.symm.trans hupper) (by decide)

/-- Looking through grids finds a point of the interval if one of them has one. -/
theorem contains_firstGridPoint {tie : Tie} {interval : ReadingInterval} {v : Nat × Nat} :
    ∀ {count : Nat} {place : Int} {i : Nat}, i < count →
      gridPoint tie interval v (place - i) ≠ none →
      interval.contains (powerFraction (firstGridPoint tie interval v count place).coefficient 10
        (firstGridPoint tie interval v count place).exponent) = true := by
  intro count
  induction count with
  | zero => exact fun h => absurd h (Nat.not_lt_zero _)
  | succ count ih =>
    intro place i hi hfound
    unfold firstGridPoint
    split
    · rename_i d hd
      exact contains_of_gridPoint hd
    · rename_i hnone
      -- Nothing on this grid: the one that has a point comes later.
      cases i with
      | zero => exact absurd hnone (by simpa using hfound)
      | succ i =>
        refine ih (i := i) (by omega) ?_
        rwa [show place - 1 - (i : Int) = place - (i + 1 : Nat) by push_cast; ring]

/-! ### Seventeen digits -/

theorem pow_le_pow_of_ratio {a b n places : Nat} (h : 10 ^ a ≤ 2 ^ b) (hb : b ≠ 0)
    (hplaces : places * b ≤ a * n) : 10 ^ places ≤ 2 ^ n := by
  refine (Nat.pow_le_pow_iff_left hb).mp ?_
  calc (10 ^ places) ^ b = 10 ^ (places * b) := (Nat.pow_mul ..).symm
    _ ≤ 10 ^ (a * n) := Nat.pow_le_pow_right (by decide) hplaces
    _ = (10 ^ a) ^ n := Nat.pow_mul ..
    _ ≤ (2 ^ b) ^ n := Nat.pow_le_pow_left h n
    _ = (2 ^ n) ^ b := Nat.pow_right_comm ..

theorem pow_le_two_mul_pow_of_ratio {a b n places : Nat} (h : 2 ^ b ≤ 2 * 10 ^ a) (hb : b ≠ 0) (hn : n ≤ b)
    (hplaces : a * n ≤ places * b) : 2 ^ n ≤ 2 * 10 ^ places := by
  refine (Nat.pow_le_pow_iff_left hb).mp ?_
  calc (2 ^ n) ^ b = (2 ^ b) ^ n := Nat.pow_right_comm ..
    _ ≤ (2 * 10 ^ a) ^ n := Nat.pow_le_pow_left h n
    _ = 2 ^ n * 10 ^ (a * n) := by rw [Nat.mul_pow, ← Nat.pow_mul]
    _ ≤ 2 ^ b * 10 ^ (places * b) :=
      Nat.mul_le_mul (Nat.pow_le_pow_right (by decide) hn) (Nat.pow_le_pow_right (by decide) hplaces)
    _ = (2 * 10 ^ places) ^ b := by rw [Nat.mul_pow, ← Nat.pow_mul 10]

/-- The ratio of the estimate is just below the logarithm of two to base ten. -/
theorem ten_pow_le_two_pow (n : Nat) : 10 ^ (n * 1233 / 4096) ≤ 2 ^ n :=
  pow_le_pow_of_ratio (a := 1233) (b := 4096) (by decide +kernel) (by decide) (by omega)

theorem two_pow_le_ten_pow {n places : Nat} (hn : n ≤ 4096) (hplaces : 1233 * n ≤ places * 4096) :
    2 ^ n ≤ 2 * 10 ^ places :=
  pow_le_two_mul_pow_of_ratio (a := 1233) (b := 4096) (by decide +kernel) (by decide) hn hplaces

/-- The estimate of the leading digit's place from the logarithm to base two. -/
theorem leading_estimate {e : Int} (he : -4096 ≤ e) : (10 : ℚ) ^ (e * 1233 / 4096 - 1) ≤ 2 ^ (e - 1) := by
  rw [zpow_sub_one₀ (by norm_num), zpow_sub_one₀ (by norm_num)]
  obtain ⟨n, rfl | rfl⟩ := e.eq_nat_or_neg
  · have hpow : (10 : ℚ) ^ ((n : Int) * 1233 / 4096) ≤ 2 ^ (n : Int) := by
      rw [show (n : Int) * 1233 / 4096 = (n * 1233 / 4096 : Nat) by norm_cast, zpow_natCast, zpow_natCast]
      exact_mod_cast ten_pow_le_two_pow n
    have := two_zpow_pos (n : Int)
    linarith
  · obtain ⟨places, hplaces⟩ : ∃ places : Nat, -(n : Int) * 1233 / 4096 = -places :=
      ⟨(-(-(n : Int) * 1233 / 4096)).toNat, by omega⟩
    rw [hplaces, zpow_neg, zpow_neg, zpow_natCast, zpow_natCast, ← mul_inv, ← mul_inv]
    refine inv_anti₀ (by positivity) ?_
    have hpow : (2 : ℚ) ^ n ≤ 2 * 10 ^ places := by
      have hpow : 2 ^ n ≤ 2 * 10 ^ places := two_pow_le_ten_pow (by omega) (by omega)
      exact_mod_cast hpow
    have : (0 : ℚ) < 10 ^ places := by positivity
    linarith

/-- The leading digit of a fraction that is not too small is not placed too high. -/
theorem ten_zpow_leadingExponent_le {v : Nat × Nat} (hnum : 0 < v.1) (hden : 0 < v.2)
    (hlow : (2 : ℚ) ^ (-1074 : Int) ≤ fractionValue v) :
    (10 : ℚ) ^ leadingExponent v ≤ fractionValue v := by
  have hten : ∀ e : Int, fractionValue (powerFraction 1 10 e) = (10 : ℚ) ^ e := fun e => by
    rw [fractionValue_powerFraction, Nat.cast_one, one_mul, Nat.cast_ofNat]
  have hden10 : ∀ e : Int, 0 < (powerFraction 1 10 e).2 := fun e => powerFraction_den_pos 1 (by decide) e
  obtain ⟨hbelow, habove⟩ := log2_bounds hnum hden
  unfold leadingExponent
  extract_lets estimate
  split
  · rename_i h
    rwa [fractionLE_iff (hden10 _) hden, hten] at h
  · split
    · rename_i h
      rwa [fractionLE_iff (hden10 _) hden, hten] at h
    -- The estimate itself has been tried, so only the place below it is left.
    · have hfrom : -1074 < (v.1.log2 : Int) - v.2.log2 + 1 :=
        (zpow_lt_zpow_iff_right₀ (by norm_num : (1 : ℚ) < 2)).mp (hlow.trans_lt habove)
      exact (leading_estimate (by omega)).trans hbelow.le

/-- The range of the positive finite doubles. -/
theorem IsPositiveFinite.value_bounds (hx : IsPositiveFinite significand exponent) :
    (2 : ℚ) ^ (-1074 : Int) ≤ significand * 2 ^ exponent ∧ significand * (2 : ℚ) ^ exponent < 2 ^ (1024 : Int) := by
  have hpow := two_zpow_pos exponent
  have hleast := hx.least
  have hgreatest : exponent ≤ 971 := by
    -- At a greater place there would be no room below the magnitude of infinity.
    by_contra hlt
    have hfull := hx.full.resolve_left (by omega)
    have hfinite := hx.finite
    have := Nat.mul_le_mul_right significandCount (show 2046 ≤ (exponent + 1074).toNat by omega)
    rw [infinityMagnitude, show 2047 * significandCount = 2046 * significandCount + significandCount from rfl]
      at hfinite
    omega
  constructor
  · calc (2 : ℚ) ^ (-1074 : Int) ≤ 1 * 2 ^ exponent := by
          rw [one_mul]
          exact two_zpow_le hleast
      _ ≤ significand * 2 ^ exponent :=
          mul_le_mul_of_nonneg_right (by exact_mod_cast hx.positive) hpow.le
  · calc significand * (2 : ℚ) ^ exponent < 2 * significandCount * 2 ^ exponent :=
          mul_lt_mul_of_pos_right (by exact_mod_cast hx.bound) hpow
      _ = 2 ^ (53 + exponent) := by
          rw [zpow_add₀ (by norm_num), show (53 : Int) = 52 + 1 from rfl, two_zpow_succ, significandCount_eq]
      _ ≤ 2 ^ (1024 : Int) := two_zpow_le (by omega)

/-- The value of a finite double. -/
theorem fractionValue_fraction (x : Double) :
    0 < x.fraction.2 ∧ fractionValue x.fraction = x.significand * 2 ^ x.exponent := by
  unfold Double.fraction
  refine ⟨scaleFraction_den_pos Nat.one_pos _, ?_⟩
  rw [fractionValue_scaleFraction, Nat.cast_one, div_one]

theorem ReadsAs.of_lt {value : ℚ}
    (hlow : (significand - reachBelow significand exponent) * (2 : ℚ) ^ exponent < value)
    (hhigh : value < (significand + 1 / 2) * (2 : ℚ) ^ exponent) : ReadsAs significand exponent value :=
  ⟨hlow.le, hhigh.le, fun _ => ⟨hlow, hhigh⟩⟩

/-- On the grid of the seventeenth digit one of the two neighbours of a double lies in its
interval. -/
theorem readsAs_neighbour (hx : IsPositiveFinite significand exponent) {place : Int}
    (hplace : (10 : ℚ) ^ (place + 16) ≤ significand * 2 ^ exponent) {lower : ℚ}
    (hlow : lower * (10 : ℚ) ^ place ≤ significand * 2 ^ exponent)
    (hhigh : significand * (2 : ℚ) ^ exponent < (lower + 1) * 10 ^ place) :
    ReadsAs significand exponent (lower * 10 ^ place) ∨
      ReadsAs significand exponent ((lower + 1) * 10 ^ place) := by
  have hpow := two_zpow_pos exponent
  have hstep : (0 : ℚ) < 10 ^ place := zpow_pos (by norm_num) _
  have hsixteen : (10 : ℚ) ^ (place + 16) = 10 ^ 16 * 10 ^ place := by
    rw [zpow_add₀ (by norm_num), mul_comm]
    rfl
  rw [hsixteen] at hplace
  by_cases hpower : significand = significandCount ∧ -1074 < exponent
  · -- a power of two: the step is less than the half place above it
    have hcount : (significand : ℚ) = 4503599627370496 := by rw [hpower.1]; norm_num [significandCount]
    refine .inr (.of_lt ?_ ?_)
    · rw [reachBelow, if_pos hpower]
      nlinarith
    · rw [hcount] at hplace hlow hhigh ⊢
      nlinarith
  · have hreach : reachBelow significand exponent = 1 / 2 := if_neg hpower
    have hbound : (significand : ℚ) < 9007199254740992 := by
      have := hx.bound
      rw [show 2 * significandCount = 9007199254740992 from rfl] at this
      exact_mod_cast this
    -- The step of the grid is less than the last place, so the nearer neighbour is near enough.
    have hless : (10 : ℚ) ^ place < 2 ^ exponent := by nlinarith
    by_cases hnear : significand * (2 : ℚ) ^ exponent - lower * 10 ^ place ≤ 10 ^ place / 2
    · refine .inl (.of_lt ?_ ?_)
      · rw [hreach]
        linarith
      · linarith
    · refine .inr (.of_lt ?_ ?_)
      · rw [hreach]
        linarith
      · linarith

/-! ### The shortest decimal -/

/-- The value of a decimal. -/
def Decimal.value (d : Decimal) : ℚ := d.coefficient * 10 ^ d.exponent

theorem fractionValue_decimal (d : Decimal) :
    fractionValue (powerFraction d.coefficient 10 d.exponent) = d.value := by
  rw [fractionValue_powerFraction, Decimal.value, Nat.cast_ofNat]

/-- Zeros at the end of a coefficient go to the exponent. -/
theorem Decimal.value_trim (count : Nat) (d : Decimal) : (Decimal.trim count d).value = d.value := by
  induction count generalizing d with
  | zero => rfl
  | succ count ih =>
    unfold Decimal.trim
    split
    · rename_i hzero
      have hten : d.coefficient = 10 * (d.coefficient / 10) := (Nat.mul_div_cancel' (Nat.dvd_of_mod_eq_zero hzero)).symm
      rw [ih, Decimal.value, Decimal.value, zpow_add_one₀ (by norm_num)]
      conv_rhs => rw [hten]
      push_cast
      ring
    · rfl

/-- The shortest decimal of a positive finite double lies in the interval of the double. -/
theorem readsAs_shortest (tie : Tie) {x : Double} (hfinite : x.isFinite = true) (hzero : x.isZero = false) :
    ReadsAs x.significand x.exponent (shortest tie x).value := by
  obtain ⟨hx, -⟩ := isPositiveFinite_parts hfinite hzero
  obtain ⟨hden, hvalue⟩ := fractionValue_fraction x
  obtain ⟨hlow, -⟩ := hx.value_bounds
  unfold shortest
  extract_lets v interval
  have hnum : 0 < v.1 := by
    refine Nat.pos_of_ne_zero fun h => ?_
    rw [fractionValue, h, Nat.cast_zero, zero_div] at hvalue
    exact (lt_of_lt_of_le (two_zpow_pos _) hlow).ne hvalue
  have hleading := ten_zpow_leadingExponent_le hnum hden (by rwa [hvalue])
  obtain ⟨lower, hbelow, habove, hfound⟩ := exists_neighbours tie interval hden (leadingExponent v - (16 : Nat))
  have hcontains := contains_firstGridPoint (show 16 < 17 by decide) (hfound ?_)
  · rwa [contains_readingInterval_iff hx.positive (powerFraction_den_pos _ (by decide) _), fractionValue_decimal,
      ← Decimal.value_trim 20] at hcontains
  · rw [contains_readingInterval_iff hx.positive (powerFraction_den_pos _ (by decide) _),
      contains_readingInterval_iff hx.positive (powerFraction_den_pos _ (by decide) _),
      fractionValue_powerFraction, fractionValue_powerFraction, Nat.cast_succ lower, Nat.cast_ofNat]
    rw [hvalue] at hbelow habove hleading
    exact readsAs_neighbour hx (by rwa [Nat.cast_ofNat, sub_add_cancel]) hbelow habove

end ProgramBreeding.Number

import Mathlib.Tactic.Ring
import ProgramBreeding.Proofs.Number.Order
import ProgramBreeding.Proofs.Number.Rounding

/-!
# Sums of numbers from the unit interval

A sum of any number of them is finite: once it is `2 ^ 53`, one more of them is rounded away.

## Main definitions

* `Double.units` — a double as a multiple of the least positive one.
* `nearestMagnitude_le_of_units` — what is not more than half a place above a power of two is rounded to that
  power at most.
* `IsPartialSum` — what a sum of numbers from the unit interval can be.
* `isPartialSum_sum` — such a sum.
-/

namespace ProgramBreeding.Number

/-! ### Rounding next to a power of two -/

/-- What is at most a half above an even number is not rounded to more than that. -/
theorem roundHalfEven_le {num den n : Nat} (hden : 0 < den) (heven : n % 2 = 0)
    (h : 2 * num ≤ (2 * n + 1) * den) : roundHalfEven num den ≤ n := by
  have hsplit : den * (num / den) + num % den = num := Nat.div_add_mod num den
  have hrest : num % den < den := Nat.mod_lt _ hden
  rw [show (2 * n + 1) * den = 2 * (den * n) + den by ring] at h
  have hle : num / den ≤ n := by
    by_contra hlt
    have := Nat.mul_le_mul_left den (show n + 1 ≤ num / den by omega)
    rw [Nat.mul_add, Nat.mul_one] at this
    omega
  unfold roundHalfEven
  extract_lets whole twice
  obtain hwhole | hwhole : whole = n ∨ whole + 1 ≤ n := by omega
  · have : den * (num / den) = den * n := congrArg (den * ·) hwhole
    split
    · omega
    · split <;> omega
  · split
    · omega
    · split <;> omega

/-- The value of a fraction in units of a place, both of them by their numerators and denominators. -/
theorem scaleFraction_mul (num : Nat) (places : Nat) {place : Int} (hplace : -(places : Int) ≤ place) :
    (scaleFraction num 1 (-place)).1 * 2 ^ (place + places).toNat =
      num * 2 ^ places * (scaleFraction num 1 (-place)).2 := by
  unfold scaleFraction
  split
  · rw [shift_eq, Nat.mul_one, Nat.mul_assoc, ← Nat.pow_add]
    congr 2
    omega
  · rw [shift_eq, neg_neg, Nat.one_mul, Nat.mul_assoc, ← Nat.pow_add]
    congr 2
    omega

/-- The same for a fraction of which a multiple is given. -/
theorem roundHalfEven_le_of_mul {num den n place units : Nat} (hden : 0 < den) (heven : n % 2 = 0)
    (hunits : num * 2 ^ place = units * den) (h : 2 * units ≤ (2 * n + 1) * 2 ^ place) :
    roundHalfEven num den ≤ n := by
  refine roundHalfEven_le hden heven (Nat.le_of_mul_le_mul_right ?_ (Nat.two_pow_pos place))
  calc 2 * num * 2 ^ place = 2 * units * den := by rw [Nat.mul_assoc, hunits, Nat.mul_assoc]
    _ ≤ (2 * n + 1) * 2 ^ place * den := Nat.mul_le_mul_right _ h
    _ = (2 * n + 1) * den * 2 ^ place := Nat.mul_right_comm ..

theorem significandCount_mul_two_pow (n : Nat) : significandCount * 2 ^ n = 2 ^ (52 + n) := by
  rw [Nat.pow_add]
  rfl

/-- A number in units of the least positive double lies between two powers of two. -/
theorem log2_units_bounds {num : Nat} (hnum : num ≠ 0) (places : Nat) :
    2 ^ (num.log2 + places) ≤ num * 2 ^ places ∧ num * 2 ^ places < 2 ^ (num.log2 + places + 1) := by
  constructor
  · rw [Nat.pow_add]
    exact Nat.mul_le_mul_right _ (Nat.log2_self_le hnum)
  · rw [Nat.add_right_comm, Nat.pow_add]
    exact Nat.mul_lt_mul_of_pos_right Nat.lt_log2_self (Nat.two_pow_pos _)

/-- The last place is as many binary places below the first one as a significand has, unless that is below the least
place of all. -/
theorem nearestMagnitude_le_lastPlace {num : Nat} (hnum : num ≠ 0) (places : Nat) :
    ∃ place n d : Nat, place = num.log2 + places - 52 ∧ 0 < d ∧ n * 2 ^ place = num * 2 ^ places * d ∧
      nearestMagnitude num 1 (places - 1074) ≤ place * significandCount + roundHalfEven n d := by
  unfold nearestMagnitude
  rw [if_neg hnum]
  extract_lets least estimate v
  have hestimate : estimate = max (-(places : Int)) (num.log2 - 52) := by
    show max (-1074 - (places - 1074 : Int)) (num.log2 - ((1 : Nat).log2 : Int) - 52) = _
    rw [show (1 : Nat).log2 = 0 from rfl]
    omega
  obtain ⟨place, hplace⟩ : ∃ place : Nat, estimate + places = place := ⟨(estimate + places).toNat, by omega⟩
  have hleast : estimate - least = place := by omega
  have hden : 0 < v.2 := scaleFraction_den_pos Nat.one_pos _
  have hvalue : v.1 * 2 ^ place = num * 2 ^ places * v.2 := by
    have hscaled : v.1 * 2 ^ (estimate + places).toNat = num * 2 ^ places * v.2 :=
      scaleFraction_mul num places (by omega)
    rwa [hplace] at hscaled
  -- The significand has all its places, so the estimate stands.
  have hestimated : ¬ (least < estimate ∧ v.1 / v.2 < significandCount) := by
    rintro ⟨habove, hsmall⟩
    rw [Nat.div_lt_iff_lt_mul hden, ← Nat.mul_lt_mul_right (Nat.two_pow_pos place), hvalue,
      Nat.mul_right_comm significandCount, Nat.mul_lt_mul_right hden, significandCount_mul_two_pow,
      show 52 + place = num.log2 + places by omega] at hsmall
    exact absurd hsmall (Nat.not_lt.mpr (log2_units_bounds hnum places).1)
  rw [if_neg (by simpa using hestimated), magnitudeAt, hleast, Int.toNat_natCast]
  exact ⟨place, v.1, v.2, by omega, hden, hvalue, Nat.min_le_left _ _⟩

/-- A number that is at most half a place above a power of two is rounded to that power at most.  It is given
in units of the least positive double. -/
theorem nearestMagnitude_le_of_units {num places k : Nat} (hk : 0 < k)
    (h : 2 * (num * 2 ^ places) ≤ (2 * significandCount + 1) * 2 ^ k) :
    nearestMagnitude num 1 (places - 1074) ≤ (k + 1) * significandCount := by
  by_cases hnum : num = 0
  · rw [nearestMagnitude, if_pos hnum]
    exact Nat.zero_le _
  obtain ⟨hlow, hhigh⟩ := log2_units_bounds hnum places
  obtain ⟨place, n, d, hplace, hden, hunits, hle⟩ := nearestMagnitude_le_lastPlace hnum places
  refine hle.trans ?_
  by_cases hbelow : num.log2 + places < 52 + k
  -- Below the power of two the last place is lower.
  · have hround : roundHalfEven n d ≤ 2 * significandCount := by
      have hsmall : num * 2 ^ places ≤ 2 * significandCount * 2 ^ place := by
        rw [Nat.mul_assoc, significandCount_mul_two_pow, ← Nat.pow_succ']
        exact Nat.le_of_lt (Nat.lt_of_lt_of_le hhigh (Nat.pow_le_pow_right Nat.two_pos (by omega)))
      refine roundHalfEven_le_of_mul hden rfl hunits ?_
      calc 2 * (num * 2 ^ places) ≤ 2 * (2 * significandCount * 2 ^ place) := Nat.mul_le_mul_left 2 hsmall
        _ = 2 * (2 * significandCount) * 2 ^ place := (Nat.mul_assoc ..).symm
        _ ≤ (2 * (2 * significandCount) + 1) * 2 ^ place := Nat.mul_le_mul_right _ (Nat.le_succ _)
    calc place * significandCount + roundHalfEven n d
        ≤ place * significandCount + 2 * significandCount := Nat.add_le_add_left hround _
      _ = (place + 2) * significandCount := (Nat.add_mul ..).symm
      _ ≤ (k + 1) * significandCount := Nat.mul_le_mul_right _ (by omega)
  · have hupper : num * 2 ^ places < 2 ^ (52 + k + 1) := by
      rw [Nat.pow_succ', ← significandCount_mul_two_pow]
      have hsplit : (2 * significandCount + 1) * 2 ^ k = 2 * (significandCount * 2 ^ k) + 2 ^ k := by
        rw [Nat.succ_mul, Nat.mul_assoc]
      have : 2 ^ k < 2 * (significandCount * 2 ^ k) := by
        rw [← Nat.mul_assoc]
        exact (Nat.lt_mul_iff_one_lt_left (Nat.two_pow_pos k)).mpr (by decide)
      omega
    have hlt := (Nat.pow_lt_pow_iff_right Nat.one_lt_two).mp (Nat.lt_of_le_of_lt hlow hupper)
    obtain rfl : place = k := by omega
    rw [Nat.succ_mul]
    exact Nat.add_le_add_left (roundHalfEven_le_of_mul hden rfl hunits h) _

end ProgramBreeding.Number

namespace ProgramBreeding

open Number

namespace Double

variable {a b x : Double}

/-! ### Doubles in units of the least positive one -/

/-- A finite double without its sign, in units of the least positive one. -/
def units (x : Double) : Nat := x.significand * 2 ^ (x.exponent + 1074).toNat

theorem exponent_ge (x : Double) : -1074 ≤ x.exponent := by
  unfold exponent
  split <;> omega

theorem isNaN_eq_false_of_isFinite (h : x.isFinite = true) : x.isNaN = false := by
  have := of_decide_eq_true h
  exact decide_eq_false fun hlt => absurd (UInt64.lt_trans this hlt) (UInt64.lt_irrefl _)

theorem isInfinite_eq_false_of_isFinite (h : x.isFinite = true) : x.isInfinite = false := by
  have := of_decide_eq_true h
  exact beq_eq_false_iff_ne.mpr fun heq => absurd (heq ▸ this) (UInt64.lt_irrefl _)

theorem isFinite_of_magnitude_le (h : x.magnitude.toNat ≤ 2046 * significandCount) : x.isFinite = true :=
  decide_eq_true (UInt64.lt_iff_toNat_lt.mpr (Nat.lt_of_le_of_lt h (by decide)))

/-- A magnitude that is not above that of a power of two is that of a number which is not above it. -/
theorem units_le {k : Nat} (hk : 0 < k) (hfinite : x.isFinite = true)
    (h : x.magnitude.toNat ≤ (k + 1) * significandCount) : x.units ≤ significandCount * 2 ^ k := by
  cases hzero : x.isZero with
  | true =>
    have hmagnitude : x.magnitude.toNat = 0 := by
      rw [beq_iff_eq.mp hzero]
      rfl
    have hnone : x.significand = 0 := by
      unfold significand
      rw [exponentField_eq, significandField_eq, hmagnitude]
      rfl
    rw [units, hnone, Nat.zero_mul]
    exact Nat.zero_le _
  | false =>
    obtain ⟨hparts, hmagnitude⟩ := isPositiveFinite_parts hfinite hzero
    have hbound := hparts.bound
    have hfull : (x.exponent + 1074).toNat = 0 ∨ significandCount ≤ x.significand :=
      hparts.full.imp_left fun hleast => by rw [hleast]; rfl
    rw [hmagnitude, Nat.succ_mul] at h
    unfold units
    generalize (x.exponent + 1074).toNat = place at h hfull ⊢
    by_cases hplace : place < k
    · calc x.significand * 2 ^ place ≤ 2 * significandCount * 2 ^ place := Nat.mul_le_mul_right _ (Nat.le_of_lt hbound)
        _ = significandCount * 2 ^ (place + 1) := by ring
        _ ≤ significandCount * 2 ^ k := Nat.mul_le_mul_left _ (Nat.pow_le_pow_right Nat.two_pos hplace)
    -- The number is that power of two itself.
    · have hcount := hfull.resolve_left (by omega)
      have hle : place ≤ k := Nat.le_of_mul_le_mul_right (by omega) (show 0 < significandCount by decide)
      obtain rfl : place = k := by omega
      exact Nat.mul_le_mul_right _ (by omega)

theorem two_mul_significandCount (n : Nat) : 2 * (significandCount * 2 ^ n) = 2 ^ (n + 53) := by
  rw [significandCount_mul_two_pow, ← Nat.pow_succ', Nat.add_comm 52 n]

@[simp]
theorem units_negativeZero : negativeZero.units = 0 := by
  rw [units, show negativeZero.significand = 0 by decide, Nat.zero_mul]

theorem toNat_magnitude_nearestScaled (num den : Nat) (exponent : Int) :
    (nearestScaled false num den exponent).magnitude.toNat = nearestMagnitude num den exponent := by
  have hle := nearestMagnitude_le num den exponent
  rw [nearestScaled, toNat_magnitude_of_sign (isNegative_ofMagnitude hle)]
  exact Nat.mod_eq_of_lt (Nat.lt_of_le_of_lt hle (by decide))

/-! ### Sums -/

/-- The sum of two finite numbers without sign is rounded once; the first one may also be the negative zero. -/
theorem add_eq_nearestScaled (hfinite : a.isFinite = true) (hfinite' : b.isFinite = true)
    (ha : a.isNegative = false ∨ a = negativeZero) (hb : b.isNegative = false) :
    ∃ n places : Nat, a + b = nearestScaled false n 1 (places - 1074) ∧ n * 2 ^ places = a.units + b.units := by
  obtain ⟨places, hplaces⟩ : ∃ places : Nat, min a.exponent b.exponent = places - 1074 :=
    ⟨(min a.exponent b.exponent + 1074).toNat, by have := a.exponent_ge; have := b.exponent_ge; omega⟩
  have hunits (x : Double) (hx : min a.exponent b.exponent ≤ x.exponent) :
      shift x.significand (x.exponent - min a.exponent b.exponent).toNat * 2 ^ places = x.units := by
    rw [shift_eq, Nat.mul_assoc, ← Nat.pow_add, units]
    congr 2
    omega
  have hsum : a + b = addFinite a b := by
    show onNumbers addNumbers a b = _
    unfold onNumbers addNumbers
    rw [isNaN_eq_false_of_isFinite hfinite, isNaN_eq_false_of_isFinite hfinite',
      isInfinite_eq_false_of_isFinite hfinite, isInfinite_eq_false_of_isFinite hfinite']
    rfl
  rcases ha with ha | rfl
  · refine ⟨_, places, ?_, (Nat.add_mul ..).trans (congrArg₂ (· + ·) (hunits a ?_) (hunits b ?_))⟩
    · rw [hsum, addFinite, ha, hb, if_pos rfl, hplaces]
    · omega
    · omega
  -- Nothing is added to the second number.
  · have hzero : negativeZero.significand = 0 := by decide
    have hsign : negativeZero.isNegative = true := by decide
    have hnone (n : Nat) : shift 0 n = 0 := by rw [shift_eq, Nat.zero_mul]
    refine ⟨_, places, ?_, (hunits b ?_).trans ?_⟩
    · rw [hsum, addFinite, hsign, hb, if_neg Bool.noConfusion, hzero, hnone, if_neg (Nat.not_lt_zero _),
        Bool.and_false, Nat.sub_zero, hplaces]
    · omega
    · rw [units_negativeZero, Nat.zero_add]

/-- What a sum of numbers from the unit interval can be: the negative zero if it is empty, else a number without
sign that is at most `2 ^ 53`. -/
inductive IsPartialSum (x : Double) : Prop
  | empty (h : x = negativeZero)
  | atMost (hsign : x.isNegative = false) (h : x.magnitude.toNat ≤ 1076 * significandCount)

theorem IsPartialSum.isFinite (h : x.IsPartialSum) : x.isFinite = true := by
  cases h with
  | empty h =>
    rw [h]
    decide
  | atMost _ h => exact isFinite_of_magnitude_le (Nat.le_trans h (by decide))

/-- The magnitude of one. -/
theorem magnitude_le_of_le_one (hsign : x.isNegative = false) (h : x ≤ 1.0) :
    x.magnitude.toNat ≤ 1023 * significandCount := by
  obtain ⟨-, -, hle⟩ := le_iff.mp h
  have hone : (1.0 : Double).position.toNat = 0x8000000000000000 + 1023 * significandCount := by decide
  rw [toNat_position, hsign, if_neg Bool.false_ne_true, hone] at hle
  omega

theorem IsPartialSum.units_le (h : x.IsPartialSum) : x.units ≤ significandCount * 2 ^ 1075 := by
  have hfinite := h.isFinite
  cases h with
  | empty h =>
    rw [h, units_negativeZero]
    exact Nat.zero_le _
  | atMost _ h => exact Double.units_le (by decide) hfinite h

/-- Beyond `2 ^ 53` a number that is at most one is less than half a place. -/
theorem IsPartialSum.add (ha : a.IsPartialSum) (hsign : b.isNegative = false) (hb : b ≤ 1.0) :
    (a + b).IsPartialSum := by
  have hmagnitude := magnitude_le_of_le_one hsign hb
  have hfinite : b.isFinite = true := isFinite_of_magnitude_le (Nat.le_trans hmagnitude (by decide))
  have hcases : a.isNegative = false ∨ a = negativeZero := by
    cases ha with
    | empty h => exact .inr h
    | atMost h _ => exact .inl h
  obtain ⟨n, places, hsum, hn⟩ := add_eq_nearestScaled ha.isFinite hfinite hcases hsign
  have hround : nearestMagnitude n 1 (places - 1074) ≤ 1076 * significandCount := by
    refine nearestMagnitude_le_of_units (k := 1022 + 53) (by decide) ?_
    have hone : b.units ≤ significandCount * 2 ^ 1022 := Double.units_le (by decide) hfinite hmagnitude
    calc 2 * (n * 2 ^ places) = 2 * (a.units + b.units) := by rw [hn]
      _ ≤ 2 * (significandCount * 2 ^ 1075 + significandCount * 2 ^ 1022) :=
          Nat.mul_le_mul_left 2 (Nat.add_le_add ha.units_le hone)
      _ = (2 * significandCount + 1) * 2 ^ (1022 + 53) := by
          rw [Nat.mul_add, two_mul_significandCount 1022, Nat.succ_mul (2 * significandCount), Nat.mul_assoc]
  rw [hsum]
  refine .atMost (isNegative_ofMagnitude (nearestMagnitude_le ..)) ?_
  rw [toNat_magnitude_nearestScaled]
  exact hround

/-- However many numbers from the unit interval are added up, their sum is finite. -/
theorem isPartialSum_sum {xs : List Double} (h : ∀ x ∈ xs, x.isNegative = false ∧ x ≤ 1.0) :
    (sum xs).IsPartialSum := by
  refine List.foldlRecOn xs (· + ·) (.empty rfl) fun s hs x hx => ?_
  exact hs.add (h x hx).1 (h x hx).2

end Double

end ProgramBreeding

import ProgramBreeding.Number.Real

/-!
# The order of doubles

Doubles that are numbers are in one order, up to the sign of zero.  The total order of all doubles tells
the zeros apart and else agrees with it.

## Main definitions

* `Double.le_iff` — numbers are compared by their positions.
* `Double.IsMaximumOf` — the greatest of some numbers.
* `Double.InUnit` — the unit interval, with `Double.inUnit_clampUnit`.
* `Double.isMaximumOf_greatest` — `greatest` finds the greatest number.
* `Double.le_of_totalKey` — the total order is finer than the order of numbers.
-/

namespace ProgramBreeding

open Number

namespace Double

variable {a b c x : Double}

/-! ### Positions -/

theorem magnitude_lt (x : Double) : x.magnitude.toNat < 0x8000000000000000 := by
  show (x.bits.toNat &&& (2 ^ 63 - 1)) < 2 ^ 63
  rw [Nat.and_two_pow_sub_one_eq_mod]
  exact Nat.mod_lt _ (Nat.two_pow_pos 63)

theorem toNat_position (x : Double) :
    x.position.toNat = if x.isNegative then 0x8000000000000000 - x.magnitude.toNat
      else 0x8000000000000000 + x.magnitude.toNat := by
  have hlt := x.magnitude_lt
  have hhalf : (0x8000000000000000 : UInt64).toNat = 0x8000000000000000 := rfl
  unfold position
  split
  · rw [UInt64.toNat_sub_of_le _ _ (by rw [UInt64.le_iff_toNat_le, hhalf]; omega), hhalf]
  · rw [UInt64.toNat_add, hhalf, Nat.mod_eq_of_lt (by omega)]

theorem toNat_totalKey (x : Double) : (totalKey x).toNat =
    if x.isNegative then 0x7FFFFFFFFFFFFFFF - x.magnitude.toNat
    else 0x8000000000000000 + x.magnitude.toNat := by
  have hlt := x.magnitude_lt
  have hhalf : (0x8000000000000000 : UInt64).toNat = 0x8000000000000000 := rfl
  have hbelow : (0x7FFFFFFFFFFFFFFF : UInt64).toNat = 0x7FFFFFFFFFFFFFFF := rfl
  unfold totalKey
  split
  · rw [UInt64.toNat_sub_of_le _ _ (by rw [UInt64.le_iff_toNat_le, hbelow]; omega), hbelow]
  · rw [UInt64.toNat_add, hhalf, Nat.mod_eq_of_lt (by omega)]

/-! ### Numbers -/

theorem le_iff : a ≤ b ↔ a.isNaN = false ∧ b.isNaN = false ∧ a.position.toNat ≤ b.position.toNat := by
  show (!a.isNaN && !b.isNaN && decide (a.position ≤ b.position)) = true ↔ _
  simp [UInt64.le_iff_toNat_le, and_assoc]

theorem lt_iff : a < b ↔ a.isNaN = false ∧ b.isNaN = false ∧ a.position.toNat < b.position.toNat := by
  show (!a.isNaN && !b.isNaN && decide (a.position < b.position)) = true ↔ _
  simp [UInt64.lt_iff_toNat_lt, and_assoc]

protected theorem le_rfl (h : x.isNaN = false) : x ≤ x := le_iff.mpr ⟨h, h, Nat.le_refl _⟩

protected theorem le_trans (hab : a ≤ b) (hbc : b ≤ c) : a ≤ c := by
  obtain ⟨ha, -, hab⟩ := le_iff.mp hab
  obtain ⟨-, hc, hbc⟩ := le_iff.mp hbc
  exact le_iff.mpr ⟨ha, hc, Nat.le_trans hab hbc⟩

protected theorem le_of_lt (h : a < b) : a ≤ b := by
  obtain ⟨ha, hb, hlt⟩ := lt_iff.mp h
  exact le_iff.mpr ⟨ha, hb, Nat.le_of_lt hlt⟩

protected theorem le_of_not_lt (ha : a.isNaN = false) (hb : b.isNaN = false) (h : ¬ b < a) : a ≤ b := by
  rw [lt_iff] at h
  exact le_iff.mpr ⟨ha, hb, Nat.not_lt.mp fun hlt => h ⟨hb, ha, hlt⟩⟩

protected theorem lt_of_not_le (ha : a.isNaN = false) (hb : b.isNaN = false) (h : ¬ a ≤ b) : b < a := by
  rw [le_iff] at h
  exact lt_iff.mpr ⟨hb, ha, Nat.not_le.mp fun hle => h ⟨ha, hb, hle⟩⟩

protected theorem lt_of_le_of_lt (hab : a ≤ b) (hbc : b < c) : a < c := by
  obtain ⟨ha, -, hab⟩ := le_iff.mp hab
  obtain ⟨-, hc, hbc⟩ := lt_iff.mp hbc
  exact lt_iff.mpr ⟨ha, hc, Nat.lt_of_le_of_lt hab hbc⟩

/-- The total order is finer than that of numbers: it tells the zeros apart. -/
theorem le_of_totalKey (ha : a.isNaN = false) (hb : b.isNaN = false) (h : totalKey a ≤ totalKey b) : a ≤ b := by
  have hmagnitude := a.magnitude_lt
  have hmagnitude' := b.magnitude_lt
  rw [UInt64.le_iff_toNat_le, toNat_totalKey, toNat_totalKey] at h
  refine le_iff.mpr ⟨ha, hb, ?_⟩
  rw [toNat_position, toNat_position]
  revert h
  cases a.isNegative <;> cases b.isNegative <;> simp only [if_true, if_false, Bool.false_eq_true] <;> omega

/-- The negative infinity is the least number. -/
theorem negInfinity_le (h : x.isNaN = false) : infinity true ≤ x := by
  have hmagnitude := x.magnitude_lt
  have hnumber : x.magnitude.toNat ≤ 0x7FF0000000000000 := by
    have := of_decide_eq_false h
    rw [UInt64.not_lt, UInt64.le_iff_toNat_le] at this
    exact this
  refine le_iff.mpr ⟨by decide, h, ?_⟩
  rw [toNat_position x]
  have hleast : (infinity true).position.toNat = 0x8000000000000000 - 0x7FF0000000000000 := by decide
  rw [hleast]
  split <;> omega

theorem isNegative_of_pos (h : 0.0 < x) : x.isNegative = false := by
  obtain ⟨-, -, hlt⟩ := lt_iff.mp h
  have hzero : (0.0 : Double).position.toNat = 0x8000000000000000 := by decide
  rw [hzero, toNat_position] at hlt
  cases hsign : x.isNegative with
  | false => rfl
  | true =>
    rw [hsign, if_pos rfl] at hlt
    omega

/-! ### The greatest of some numbers -/

/-- A number is the greatest of some numbers.  Zeros of different signs are the same number. -/
structure IsMaximumOf (x : Double) (xs : List Double) : Prop where
  le : ∀ y ∈ xs, y ≤ x
  attained : ∃ y ∈ xs, x ≤ y

namespace IsMaximumOf

variable {xs ys : List Double}

theorem isNaN_eq (h : x.IsMaximumOf xs) : x.isNaN = false := by
  obtain ⟨y, -, hy⟩ := h.attained
  exact (le_iff.mp hy).1

protected theorem singleton (h : x.isNaN = false) : x.IsMaximumOf [x] := by
  refine ⟨fun y hy => ?_, x, List.mem_singleton_self _, Double.le_rfl h⟩
  rw [List.mem_singleton.mp hy]
  exact Double.le_rfl h

/-- The greatest of more numbers is no less. -/
protected theorem mono {y : Double} (hx : x.IsMaximumOf xs) (hy : y.IsMaximumOf ys) (h : xs ⊆ ys) : x ≤ y := by
  obtain ⟨z, hz, hxz⟩ := hx.attained
  exact Double.le_trans hxz (hy.le z (h hz))

/-- The greatest of two lists is that of their greatest numbers which is no less than the other. -/
protected theorem append {y : Double} (hx : x.IsMaximumOf xs) (hy : y.IsMaximumOf ys) (h : y ≤ x) :
    x.IsMaximumOf (xs ++ ys) := by
  refine ⟨fun z hz => ?_, ?_⟩
  · rcases List.mem_append.mp hz with hz | hz
    · exact hx.le z hz
    · exact Double.le_trans (hy.le z hz) h
  · obtain ⟨z, hz, hxz⟩ := hx.attained
    exact ⟨z, List.mem_append_left _ hz, hxz⟩

/-- If some of the numbers are stood for by the greatest of them, it does not matter. -/
theorem extend {y : Double} (hy : y.IsMaximumOf xs) (hx : x.IsMaximumOf (y :: ys)) : x.IsMaximumOf (xs ++ ys) := by
  have hyx := hx.le y (List.mem_cons_self ..)
  refine ⟨fun z hz => ?_, ?_⟩
  · rcases List.mem_append.mp hz with hz | hz
    · exact Double.le_trans (hy.le z hz) hyx
    · exact hx.le z (List.mem_cons_of_mem _ hz)
  · obtain ⟨z, hz, hxz⟩ := hx.attained
    rcases List.mem_cons.mp hz with rfl | hz
    · obtain ⟨w, hw, hzw⟩ := hy.attained
      exact ⟨w, List.mem_append_left _ hw, Double.le_trans hxz hzw⟩
    · exact ⟨z, List.mem_append_right _ hz, hxz⟩

protected theorem congr (hx : x.IsMaximumOf xs) (h : ∀ y, y ∈ xs ↔ y ∈ ys) : x.IsMaximumOf ys := by
  refine ⟨fun y hy => hx.le y ((h y).mpr hy), ?_⟩
  obtain ⟨y, hy, hxy⟩ := hx.attained
  exact ⟨y, (h y).mp hy, hxy⟩

end IsMaximumOf

theorem isMaximumOf_maxDefined (ha : a.isNaN = false) (hb : b.isNaN = false) :
    (maxDefined a b).IsMaximumOf [a, b] := by
  unfold maxDefined
  rw [ha, hb, if_neg Bool.false_ne_true, if_neg Bool.false_ne_true]
  split
  · exact .append (.singleton ha) (.singleton hb) (Double.le_of_lt ‹_›)
  · refine .congr (.append (.singleton hb) (.singleton ha) (Double.le_of_not_lt ha hb ‹_›)) fun y => ?_
    simp [or_comm]

/-- By induction on the numbers. -/
theorem isMaximumOf_foldl_maxDefined (xs : List Double) : ∀ {a : Double}, a.isNaN = false →
    (∀ x ∈ xs, x.isNaN = false) → (xs.foldl maxDefined a).IsMaximumOf (a :: xs) := by
  induction xs with
  | nil =>
    intro a ha _
    exact .singleton ha
  | cons b xs ih =>
    intro a ha hxs
    have hmax := isMaximumOf_maxDefined ha (hxs b (List.mem_cons_self ..))
    exact hmax.extend (ih hmax.isNaN_eq fun x hx => hxs x (List.mem_cons_of_mem _ hx))

/-- The search for the greatest number finds it. -/
theorem isMaximumOf_greatest {xs : List Double} (hne : xs ≠ []) (h : ∀ x ∈ xs, x.isNaN = false) :
    (greatest xs).IsMaximumOf xs := by
  have hmax : (greatest xs).IsMaximumOf (infinity true :: xs) := isMaximumOf_foldl_maxDefined xs (by decide) h
  refine ⟨fun y hy => hmax.le y (List.mem_cons_of_mem _ hy), ?_⟩
  obtain ⟨y, hy, hle⟩ := hmax.attained
  rcases List.mem_cons.mp hy with rfl | hy
  -- If it is the negative infinity, it is any of them.
  · obtain ⟨z, hz⟩ := List.exists_mem_of_ne_nil xs hne
    exact ⟨z, hz, Double.le_trans hle (negInfinity_le (h z hz))⟩
  · exact ⟨y, hy, hle⟩

/-! ### The unit interval -/

/-- A number in the unit interval. -/
structure InUnit (x : Double) : Prop where
  low : 0.0 ≤ x
  high : x ≤ 1.0

theorem InUnit.isNaN_eq (h : x.InUnit) : x.isNaN = false := (le_iff.mp h.low).2.1

theorem inUnit_zero : InUnit 0.0 := ⟨by decide, by decide⟩

theorem inUnit_one : InUnit 1.0 := ⟨by decide, by decide⟩

/-- What is moved into the unit interval is there. -/
theorem inUnit_clampUnit (x : Double) : (clampUnit x).InUnit := by
  unfold clampUnit
  split
  · exact inUnit_zero
  · rename_i hnumber
    rw [Bool.not_eq_true] at hnumber
    split
    · exact inUnit_zero
    · rename_i hlow
      split
      · exact inUnit_one
      · rename_i hhigh
        exact ⟨Double.le_of_not_lt inUnit_zero.isNaN_eq hnumber hlow,
          Double.le_of_not_lt hnumber inUnit_one.isNaN_eq hhigh⟩

end Double

end ProgramBreeding

import ProgramBreeding.Number.Layout
import ProgramBreeding.Number.Numeral

/-!
# The form of numerals

Numerals without a sign denote doubles without a sign, and such doubles are written as
digits with a point among them, an exponent after them, or both.

## Main definitions

* `AreDigits` — at least one digit and nothing else.
* `IsFraction`, `IsScientific` — the two forms of a written double.
-/

namespace ProgramBreeding.Number

/-! ### Signs -/

theorem magnitudeAt_le (place : Int) (v : Nat × Nat) : magnitudeAt place v ≤ infinityMagnitude :=
  Nat.min_le_right _ _

theorem nearestMagnitude_le (num den : Nat) (exponent : Int) :
    nearestMagnitude num den exponent ≤ infinityMagnitude := by
  unfold nearestMagnitude
  extract_lets least estimate v
  split
  · exact Nat.zero_le _
  · split <;> exact magnitudeAt_le _ _

theorem isNegative_ofMagnitude {magnitude : Nat} (h : magnitude ≤ infinityMagnitude) :
    (Double.ofMagnitude false magnitude.toUInt64).isNegative = false := by
  have hlt : magnitude < 2 ^ 63 := Nat.lt_of_le_of_lt h (by decide)
  show decide ((0x8000000000000000 : UInt64) ≤ magnitude.toUInt64) = false
  rw [decide_eq_false_iff_not, UInt64.le_iff_toNat_le]
  have hvalue : magnitude.toUInt64.toNat = magnitude := by
    show magnitude % 2 ^ 64 = magnitude
    exact Nat.mod_eq_of_lt (by omega)
  rw [hvalue]
  show ¬ 9223372036854775808 ≤ magnitude
  omega

theorem isNegative_nearest (num den : Nat) : (Double.nearest false num den).isNegative = false :=
  isNegative_ofMagnitude (nearestMagnitude_le num den 0)

theorem isNegative_ofDecimal (coefficient : Nat) (exponent : Int) :
    (Double.ofDecimal coefficient exponent).isNegative = false := by
  unfold Double.ofDecimal
  split <;> exact isNegative_nearest _ _

theorem isNegative_decimalValue (ds : List Char) (exponent : Int) :
    (decimalValue ds exponent).isNegative = false := by
  have hzero : (0.0 : Double).isNegative = false := isNegative_ofDecimal 0 (-1)
  unfold decimalValue
  extract_lets significant magnitude
  split
  · exact hzero
  · split
    · rfl
    · split
      · exact hzero
      · exact isNegative_ofDecimal _ _

/-- A numeral without a sign denotes a double without a sign. -/
theorem isNegative_of_readUnsigned {cs : List Char} {x : Double} (h : readUnsigned cs = some x) :
    x.isNegative = false := by
  unfold readUnsigned at h
  split at h
  split at h
  extract_lets ds at h
  split at h
  · cases h
  · obtain ⟨exponent, -, rfl⟩ := Option.map_eq_some_iff.mp h
    exact isNegative_decimalValue _ _

/-! ### Digits -/

/-- Whether all characters of a list have a property is decided by looking through the list, not
through the alphabet. -/
instance (priority := high) decidableForallMemChar {p : Char → Prop} [DecidablePred p] (cs : List Char) :
    Decidable (∀ c ∈ cs, p c) :=
  List.decidableBAll p cs

/-- At least one digit and nothing else. -/
def AreDigits (cs : List Char) : Prop := cs ≠ [] ∧ ∀ c ∈ cs, c.isDigit = true

instance (cs : List Char) : Decidable (AreDigits cs) :=
  inferInstanceAs (Decidable (cs ≠ [] ∧ ∀ c ∈ cs, c.isDigit = true))

theorem AreDigits.append {cs ds : List Char} (hcs : AreDigits cs) (hds : ∀ d ∈ ds, d.isDigit = true) :
    AreDigits (cs ++ ds) :=
  ⟨by simp [hcs.1], fun c hc => (List.mem_append.mp hc).elim (hcs.2 c) (hds c)⟩

theorem areDigits_digits (n : Nat) : AreDigits (digits n).toList := by
  unfold digits
  rw [String.toList_ofList]
  exact ⟨Nat.toDigits_ne_nil, fun c hc => Nat.isDigit_of_mem_toDigits (by decide) (by decide) hc⟩

theorem digitsValue_digits (n : Nat) : digitsValue (digits n).toList = n := by
  unfold digits
  rw [String.toList_ofList]
  exact Nat.ofDigitChars_ten_toDigits

theorem isDigit_zeros {n : Nat} {c : Char} (hc : c ∈ (zeros n).toList) : c.isDigit = true := by
  unfold zeros at hc
  rw [String.toList_ofList] at hc
  rw [List.eq_of_mem_replicate hc]
  decide

theorem AreDigits.zeros_append {ds : List Char} (hds : AreDigits ds) (n : Nat) :
    AreDigits ((zeros n).toList ++ ds) :=
  ⟨by simp [hds.1], fun c hc => (List.mem_append.mp hc).elim isDigit_zeros (hds.2 c)⟩

/-! ### Written doubles -/

/-- Digits, a point and digits. -/
def IsFraction (cs : List Char) : Prop :=
  ∃ whole places, cs = whole ++ '.' :: places ∧ AreDigits whole ∧ AreDigits places

/-- A numeral with an exponent. -/
def IsScientific (cs : List Char) : Prop :=
  ∃ mantissa sign power, cs = mantissa ++ 'e' :: (sign ++ power) ∧
    (AreDigits mantissa ∨ IsFraction mantissa) ∧ (sign = [] ∨ sign = ['-']) ∧ AreDigits power

theorem isFraction_placePoint {ds : String} (hds : AreDigits ds.toList) {whole : Nat}
    (hpos : 0 < whole) (hlt : whole < ds.length) : IsFraction (placePoint ds whole).toList := by
  have hlength : ds.toList.length = ds.length := String.length_toList
  refine ⟨ds.toList.take whole, ds.toList.drop whole, ?_, ⟨?_, ?_⟩, ⟨?_, ?_⟩⟩
  · simp [placePoint]
  · exact List.ne_nil_of_length_pos (by rw [List.length_take]; omega)
  · exact fun c hc => hds.2 c (List.mem_of_mem_take hc)
  · exact List.ne_nil_of_length_pos (by rw [List.length_drop]; omega)
  · exact fun c hc => hds.2 c (List.mem_of_mem_drop hc)

theorem isFraction_positional (d : Decimal) : IsFraction (positional ".0" d).toList := by
  unfold positional
  extract_lets ds places
  have hds : AreDigits ds.toList := areDigits_digits d.coefficient
  split
  · refine ⟨ds.toList ++ (zeros d.exponent.toNat).toList, ['0'], ?_, hds.append fun c => isDigit_zeros,
      by decide⟩
    simp
  · split
    · rename_i hexponent hplaces
      exact isFraction_placePoint hds (Nat.sub_pos_of_lt hplaces) (by omega)
    · exact ⟨['0'], (zeros (places - ds.length)).toList ++ ds.toList, by simp, by decide,
        hds.zeros_append _⟩

theorem isScientific_scientific (d : Decimal) : IsScientific (sourceLayout.scientific d).toList := by
  unfold FloatLayout.scientific FloatLayout.writeExponent
  extract_lets ds mantissa power
  have hds : AreDigits ds.toList := areDigits_digits d.coefficient
  refine ⟨mantissa.toList, if d.exponent + ds.length - 1 < 0 then ['-'] else [],
    (zeros (sourceLayout.exponentWidth - power.length)).toList ++ power.toList, ?_, ?_, ?_, ?_⟩
  · split <;> simp [sourceLayout]
  · by_cases hshort : ds.length ≤ 1
    · exact .inl (by rw [show mantissa = ds from if_pos hshort]; exact hds)
    · exact .inr (by
        rw [show mantissa = placePoint ds 1 from if_neg hshort]
        exact isFraction_placePoint hds Nat.one_pos (by omega))
  · split <;> simp
  · exact (areDigits_digits _).zeros_append _

theorem isNaN_isInfinite_of_isFinite {x : Double} (hfinite : x.isFinite = true) :
    x.isNaN = false ∧ x.isInfinite = false := by
  unfold Double.isFinite at hfinite
  unfold Double.isNaN Double.isInfinite
  have hlt := of_decide_eq_true hfinite
  refine ⟨decide_eq_false (UInt64.not_lt.mpr (UInt64.le_of_lt hlt)), ?_⟩
  exact beq_eq_false_iff_ne.mpr (UInt64.ne_of_lt hlt)

/-- A finite double without a sign is written with a point, an exponent or both. -/
theorem write_source_form {x : Double} (hfinite : x.isFinite = true) (hsign : x.isNegative = false) :
    IsFraction (sourceLayout.write x).toList ∨ IsScientific (sourceLayout.write x).toList := by
  have hnumber := isNaN_isInfinite_of_isFinite hfinite
  unfold FloatLayout.write
  rw [if_neg (by simp [hnumber.1])]
  extract_lets sign
  have hempty : sign = "" := if_neg (by simp [hsign])
  rw [hempty, if_neg (by simp [hnumber.2])]
  split
  · exact .inl ⟨['0'], ['0'], by simp [sourceLayout], by decide, by decide⟩
  · unfold FloatLayout.writePositive
    extract_lets d leading
    rw [String.empty_append]
    split
    · exact .inl (isFraction_positional d)
    · exact .inr (isScientific_scientific d)

end ProgramBreeding.Number

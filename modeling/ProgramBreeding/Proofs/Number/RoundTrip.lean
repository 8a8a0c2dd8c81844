import ProgramBreeding.Proofs.Number.Shortest

/-!
# Written doubles are read back

The text of a finite double without a sign denotes that double.

## Main results

* `decimalValue_eq` — digits with an exponent become the double in whose interval their
  value lies.
* `readUnsigned_write` — every finite double without a sign is read back from its text.
-/

namespace ProgramBreeding.Number

/-! ### The value of digits -/

theorem digitsValue_append_singleton (ds : List Char) (d : Char) :
    digitsValue (ds ++ [d]) = 10 * digitsValue ds + (d.toNat - 48) := by
  simp only [digitsValue, List.foldl_append, List.foldl_cons, List.foldl_nil]

theorem digitsValue_zeros_append (n : Nat) (ds : List Char) :
    digitsValue (List.replicate n '0' ++ ds) = digitsValue ds := by
  induction n with
  | zero => rfl
  | succ n ih => exact ih

theorem digitsValue_append_zeros (ds : List Char) (n : Nat) :
    digitsValue (ds ++ List.replicate n '0') = digitsValue ds * 10 ^ n := by
  induction n with
  | zero => rw [List.replicate_zero, List.append_nil, Nat.pow_zero, Nat.mul_one]
  | succ n ih =>
    rw [List.replicate_succ', ← List.append_assoc, digitsValue_append_singleton, ih,
      show '0'.toNat - 48 = 0 from rfl]
    ring

theorem digitsValue_dropWhile (ds : List Char) : digitsValue (ds.dropWhile (· == '0')) = digitsValue ds := by
  induction ds with
  | nil => rfl
  | cons d ds ih =>
    rw [List.dropWhile_cons]
    split
    · rename_i hzero
      rw [ih, beq_iff_eq.mp hzero]
      rfl
    · rfl

theorem digit_lt {c : Char} (hc : c.isDigit = true) : c.toNat - 48 < 10 := by
  simp only [Char.isDigit, Bool.and_eq_true, decide_eq_true_eq] at hc
  have hle : c.val.toNat ≤ 57 := UInt32.le_iff_toNat_le.mp hc.2
  show c.val.toNat - 48 < 10
  omega

theorem digitsValue_lt {ds : List Char} (hds : ∀ d ∈ ds, d.isDigit = true) :
    digitsValue ds < 10 ^ ds.length := by
  induction ds using List.reverseRecOn with
  | nil => decide
  | append_singleton ds d ih =>
    have hd := digit_lt (hds d (by simp))
    have := ih fun c hc => hds c (by simp [hc])
    rw [digitsValue_append_singleton, List.length_append, List.length_singleton, Nat.pow_succ]
    omega

theorem le_digitsValue {d : Char} (ds : List Char) (hd : d.isDigit = true) (hzero : d ≠ '0') :
    10 ^ ds.length ≤ digitsValue (d :: ds) := by
  induction ds using List.reverseRecOn with
  | nil =>
    simp only [Char.isDigit, Bool.and_eq_true, decide_eq_true_eq] at hd
    have hle : 48 ≤ d.val.toNat := UInt32.le_iff_toNat_le.mp hd.1
    have hne : d.val.toNat ≠ 48 := fun h => hzero (Char.ext (UInt32.toNat_inj.mp h))
    show 1 ≤ 10 * 0 + (d.val.toNat - 48)
    omega
  | append_singleton ds c ih =>
    rw [← List.cons_append, digitsValue_append_singleton, List.length_append, List.length_singleton,
      Nat.pow_succ]
    omega

/-- A short exponent is read in full. -/
theorem exponentValue_eq {ds : List Char} (h : digitsValue ds < 65536) : exponentValue ds = digitsValue ds := by
  induction ds using List.reverseRecOn with
  | nil => rfl
  | append_singleton ds d ih =>
    rw [digitsValue_append_singleton] at h ⊢
    have hprefix : exponentValue ds = digitsValue ds := ih (by omega)
    have hstep : exponentValue (ds ++ [d]) =
        if exponentValue ds < 65536 then 10 * exponentValue ds + (d.toNat - 48) else exponentValue ds := by
      unfold exponentValue
      rw [List.foldl_append]
      rfl
    rw [hstep, hprefix, if_pos (by omega)]

/-- How many digits a positive number has. -/
theorem exists_length_digits {c : Nat} (hc : 0 < c) :
    ∃ n, (digits c).length = n + 1 ∧ 10 ^ n ≤ c ∧ c < 10 ^ (n + 1) := by
  have hlength : (digits c).length = (Nat.toDigits 10 c).length := by
    rw [← String.length_toList, digits, String.toList_ofList]
  have hpos : 0 < (Nat.toDigits 10 c).length := Nat.length_toDigits_pos
  obtain ⟨n, hn⟩ := Nat.exists_eq_succ_of_ne_zero hpos.ne'
  refine ⟨n, hlength.trans hn, ?_, (Nat.length_toDigits_le_iff (by decide) n.succ_pos).mp hn.le⟩
  by_cases hzero : n = 0
  · rw [hzero]
    exact hc
  · exact not_lt.mp fun hlt =>
      absurd ((Nat.length_toDigits_le_iff (by decide) (Nat.pos_of_ne_zero hzero)).mpr hlt) (by omega)

/-! ### Digits in the interval of a double -/

variable {significand : Nat} {exponent : Int}

/-- The interval of a double stays in a range of powers of ten. -/
theorem ReadsAs.value_bounds (hx : IsPositiveFinite significand exponent) {value : ℚ}
    (h : ReadsAs significand exponent value) : (10 : ℚ) ^ (-400 : Int) < value ∧ value < 10 ^ (400 : Int) := by
  obtain ⟨hlow, hhigh⟩ := hx.value_bounds
  have hpow := two_zpow_pos exponent
  have hpositive : (1 : ℚ) ≤ significand := by exact_mod_cast hx.positive
  have hreach := reachBelow_le significand exponent
  have hten : (2 : ℚ) ^ (1075 : Int) < 10 ^ (400 : Int) := by
    have : 2 ^ 1075 < 10 ^ 400 := by decide +kernel
    exact_mod_cast this
  constructor
  · calc (10 : ℚ) ^ (-400 : Int) = (10 ^ (400 : Int))⁻¹ := zpow_neg ..
      _ < (2 ^ (1075 : Int))⁻¹ := inv_strictAnti₀ (two_zpow_pos _) hten
      _ = 2 ^ (-1074 : Int) / 2 := by
          rw [← zpow_neg, div_eq_mul_inv, ← zpow_sub_one₀ (by norm_num)]
          rfl
      _ ≤ (significand - reachBelow significand exponent) * 2 ^ exponent := by nlinarith
      _ ≤ value := h.low
  · calc value ≤ (significand + 1 / 2) * 2 ^ exponent := h.high
      _ ≤ 2 * (significand * 2 ^ exponent) := by nlinarith
      _ < 2 * 2 ^ (1024 : Int) := by linarith
      _ ≤ 2 ^ (1075 : Int) := by
          rw [← two_zpow_succ]
          exact two_zpow_le (by decide)
      _ < 10 ^ (400 : Int) := hten

/-- The place of the leading digit of a number in the interval of a double. -/
theorem ReadsAs.leading_bounds (hx : IsPositiveFinite significand exponent) {c n : Nat} {e : Int}
    (h : ReadsAs significand exponent (c * 10 ^ e)) (hlow : 10 ^ n ≤ c) (hhigh : c < 10 ^ (n + 1)) :
    -400 < e + (n + 1) ∧ e + n < 400 := by
  obtain ⟨hfrom, hto⟩ := h.value_bounds hx
  have hpos : (0 : ℚ) < 10 ^ e := zpow_pos (by norm_num) _
  have hone : (1 : ℚ) < 10 := by norm_num
  constructor
  · refine (zpow_lt_zpow_iff_right₀ hone).mp (hfrom.trans ?_)
    rw [zpow_add₀ (by norm_num), mul_comm]
    refine mul_lt_mul_of_pos_left ?_ hpos
    exact_mod_cast hhigh
  · refine (zpow_lt_zpow_iff_right₀ hone).mp (lt_of_le_of_lt ?_ hto)
    rw [zpow_add₀ (by norm_num), mul_comm]
    refine mul_le_mul_of_nonneg_right ?_ hpos.le
    exact_mod_cast hlow

theorem ReadsAs.pos (hx : IsPositiveFinite significand exponent) {c : Nat} {e : Int}
    (h : ReadsAs significand exponent (c * 10 ^ e)) : 0 < c := by
  refine Nat.pos_of_ne_zero fun hzero => ?_
  have := (h.value_bounds hx).1
  rw [hzero, Nat.cast_zero, zero_mul] at this
  exact absurd this (not_lt.mpr (zpow_pos (by norm_num) _).le)

variable {x : Double} (hfinite : x.isFinite = true) (hsign : x.isNegative = false)
  (hzero : x.isZero = false)

include hfinite hsign hzero

theorem ofDecimal_eq {c : Nat} {e : Int} (h : ReadsAs x.significand x.exponent (c * 10 ^ e)) :
    Double.ofDecimal c e = x := by
  have hc := h.pos (isPositiveFinite_parts hfinite hzero).1
  unfold Double.ofDecimal
  split
  · rename_i he
    obtain ⟨n, rfl⟩ := Int.eq_ofNat_of_zero_le he
    refine nearest_eq_of_readsAs hfinite hsign hzero (Nat.mul_pos hc (Nat.pow_pos (by decide))) Nat.one_pos ?_
    simpa using h
  · rename_i he
    obtain ⟨n, rfl⟩ : ∃ n : Nat, e = -n := ⟨(-e).toNat, by omega⟩
    refine nearest_eq_of_readsAs hfinite hsign hzero hc (Nat.pow_pos (by decide)) ?_
    simpa [div_eq_mul_inv] using h

/-- Digits with an exponent become the double in whose interval their value lies. -/
theorem decimalValue_eq {ds : List Char} (hds : ∀ d ∈ ds, d.isDigit = true) {e : Int}
    (h : ReadsAs x.significand x.exponent (digitsValue ds * 10 ^ e)) : decimalValue ds e = x := by
  have hx := (isPositiveFinite_parts hfinite hzero).1
  unfold decimalValue
  extract_lets significant magnitude
  have hvalue : digitsValue significant = digitsValue ds := digitsValue_dropWhile ds
  rw [← hvalue] at h
  have hdigits : ∀ d ∈ significant, d.isDigit = true := fun d hd => hds d ((List.dropWhile_sublist _).mem hd)
  cases hsignificant : significant with
  | nil =>
    have hpos := h.pos hx
    rw [hsignificant] at hpos
    exact absurd hpos (by decide)
  | cons d rest =>
    have hd : d ≠ '0' := by
      have := List.head?_dropWhile_not (· == '0') ds
      rw [show ds.dropWhile _ = d :: rest from hsignificant] at this
      simpa using this
    have hlow := le_digitsValue rest (hdigits d (by simp [hsignificant])) hd
    have hhigh := digitsValue_lt hdigits
    rw [hsignificant] at h hhigh
    have hbounds := h.leading_bounds hx hlow hhigh
    have hmagnitude : magnitude = e + (rest.length + 1) := by
      show e + (significant.length : Int) = _
      rw [hsignificant]
      rfl
    rw [if_neg (by simp), if_neg (by omega), if_neg (by omega)]
    exact ofDecimal_eq hfinite hsign hzero h

omit hfinite hsign hzero

/-! ### Reading the parts of a numeral -/

theorem spanDigits_append {ds rest : List Char} (hds : ∀ d ∈ ds, d.isDigit = true)
    (hrest : ∀ c ∈ rest.head?, c.isDigit = false) : spanDigits (ds ++ rest) = (ds, rest) := by
  unfold spanDigits
  rw [List.takeWhile_append_of_pos hds, List.dropWhile_append_of_pos hds]
  cases rest with
  | nil => simp
  | cons c rest =>
    have hc : c.isDigit = false := hrest c rfl
    simp [hc]

/-- A numeral without a point. -/
theorem readUnsigned_whole {whole tail : List Char} (hwhole : AreDigits whole)
    (htail : ∀ c ∈ tail.head?, c.isDigit = false ∧ c ≠ '.') :
    readUnsigned (whole ++ tail) = (readExponent tail).map fun e => decimalValue whole e := by
  unfold readUnsigned
  simp only [spanDigits_append hwhole.2 fun c hc => (htail c hc).1]
  split
  · exact absurd rfl (htail '.' rfl).2
  · simp [hwhole.1]

/-- A numeral with a point. -/
theorem readUnsigned_point {whole places tail : List Char} (hwhole : AreDigits whole)
    (hplaces : ∀ d ∈ places, d.isDigit = true) (htail : ∀ c ∈ tail.head?, c.isDigit = false) :
    readUnsigned (whole ++ '.' :: (places ++ tail)) =
      (readExponent tail).map fun e => decimalValue (whole ++ places) (e - places.length) := by
  unfold readUnsigned
  have hpoint : ∀ c ∈ ('.' :: (places ++ tail)).head?, c.isDigit = false := by simp
  simp only [spanDigits_append hwhole.2 hpoint, spanDigits_append hplaces htail]
  rw [if_neg (by simp [hwhole.1])]

theorem readSigned_eq {valueOf : List Char → Nat} {cs ds : List Char} {negative : Bool}
    (hsplit : splitSign cs = (negative, ds)) (hds : AreDigits ds) :
    readSigned valueOf cs = some (if negative then -(valueOf ds : Int) else valueOf ds) := by
  unfold readSigned
  simp only [hsplit]
  rw [if_neg (by simpa [hds.1] using hds.2)]

theorem splitSign_minus (ds : List Char) : splitSign ('-' :: ds) = (true, ds) := rfl

theorem splitSign_digits {ds : List Char} (hds : AreDigits ds) : splitSign ds = (false, ds) := by
  unfold splitSign
  split
  · exact absurd (hds.2 '-' (by simp)) (by decide)
  · exact absurd (hds.2 '+' (by simp)) (by decide)
  · rfl

/-- A written exponent is read back. -/
theorem readExponent_write {e : Int} (he : e.natAbs < 65536) :
    readExponent ('e' :: (sourceLayout.writeExponent e).toList) = some e := by
  have hdigits := areDigits_digits e.natAbs
  have hzeros : zeros (sourceLayout.exponentWidth - (digits e.natAbs).length) = "" := by
    have hpos : 0 < (digits e.natAbs).length := by
      rw [← String.length_toList]
      exact List.length_pos_of_ne_nil hdigits.1
    rw [show sourceLayout.exponentWidth - (digits e.natAbs).length = 0 from Nat.sub_eq_zero_of_le hpos]
    rfl
  have hvalue : exponentValue (digits e.natAbs).toList = e.natAbs := by
    rw [exponentValue_eq (by rwa [digitsValue_digits]), digitsValue_digits]
  show readSigned exponentValue (sourceLayout.writeExponent e).toList = some e
  unfold FloatLayout.writeExponent
  dsimp only
  rw [hzeros]
  by_cases hneg : e < 0
  · rw [if_pos hneg, show ("-" ++ "" ++ digits e.natAbs).toList = '-' :: (digits e.natAbs).toList by simp,
      readSigned_eq (splitSign_minus _) hdigits, hvalue, if_pos rfl]
    congr 1
    omega
  · rw [if_neg hneg, show (sourceLayout.plusMark ++ "" ++ digits e.natAbs).toList = (digits e.natAbs).toList by
      simp [sourceLayout], readSigned_eq (splitSign_digits hdigits) hdigits, hvalue, if_neg (by decide)]
    congr 1
    omega

/-! ### Reading written decimals -/

include hfinite hsign hzero

variable {d : Decimal} (h : ReadsAs x.significand x.exponent d.value)

include h

theorem readUnsigned_placePoint {n whole : Nat} (hn : (digits d.coefficient).length = n) (hpos : 0 < whole)
    (hlt : whole < n) {tail : List Char} {e : Int} (htail : ∀ c ∈ tail.head?, c.isDigit = false)
    (hexponent : readExponent tail = some e) (he : e - (n - whole : Nat) = d.exponent) :
    readUnsigned ((placePoint (digits d.coefficient) whole).toList ++ tail) = some x := by
  have hdigits := areDigits_digits d.coefficient
  have hlength : (digits d.coefficient).toList.length = n := by rw [String.length_toList, hn]
  have hsplit : (placePoint (digits d.coefficient) whole).toList ++ tail =
      (digits d.coefficient).toList.take whole ++ '.' :: ((digits d.coefficient).toList.drop whole ++ tail) := by
    simp [placePoint]
  rw [hsplit, readUnsigned_point ⟨?_, fun c hc => hdigits.2 c (List.mem_of_mem_take hc)⟩
    (fun c hc => hdigits.2 c (List.mem_of_mem_drop hc)) htail, hexponent, Option.map_some, List.take_append_drop,
    List.length_drop, hlength, he]
  · exact congrArg some (decimalValue_eq hfinite hsign hzero hdigits.2 (by rwa [digitsValue_digits]))
  · exact List.ne_nil_of_length_pos (by rw [List.length_take]; omega)

theorem readUnsigned_positional : readUnsigned (positional ".0" d).toList = some x := by
  have hdigits := areDigits_digits d.coefficient
  unfold positional
  extract_lets ds places
  split
  · rename_i hexponent
    obtain ⟨n, hn⟩ := Int.eq_ofNat_of_zero_le hexponent
    have hsplit : (ds ++ zeros d.exponent.toNat ++ ".0").toList =
        (ds.toList ++ List.replicate n '0') ++ '.' :: (List.replicate 1 '0' ++ []) := by
      simp [zeros, hn]
    rw [hsplit, readUnsigned_point (hdigits.append ?_) (by simp) (by simp)]
    · refine congrArg some (decimalValue_eq hfinite hsign hzero ?_ ?_)
      · simp only [List.mem_append, List.mem_replicate]
        rintro c ((hc | hc) | hc)
        · exact hdigits.2 c hc
        · rw [hc.2]
          decide
        · rw [hc.2]
          decide
      · rw [digitsValue_append_zeros, digitsValue_append_zeros, digitsValue_digits, List.length_replicate]
        rw [Decimal.value, hn] at h
        simpa [mul_assoc] using h
    · intro c hc
      rw [List.eq_of_mem_replicate hc]
      decide
  · rename_i hexponent
    split
    · rename_i hplaces
      rw [← List.append_nil (placePoint ds (ds.length - places)).toList]
      have hlength : (digits d.coefficient).length = ds.length := rfl
      exact readUnsigned_placePoint hfinite hsign hzero h hlength (by omega) (by omega) (by simp) rfl (by omega)
    · have hsplit : ("0." ++ zeros (places - ds.length) ++ ds).toList =
          ['0'] ++ '.' :: ((List.replicate (places - ds.length) '0' ++ ds.toList) ++ []) := by
        simp [zeros]
      have hall : ∀ c ∈ List.replicate (places - ds.length) '0' ++ ds.toList, c.isDigit = true := by
        simp only [List.mem_append, List.mem_replicate]
        rintro c (hc | hc)
        · rw [hc.2]
          decide
        · exact hdigits.2 c hc
      rw [hsplit, readUnsigned_point (by decide) hall (by simp)]
      refine congrArg some (decimalValue_eq hfinite hsign hzero ?_ ?_)
      · intro c hc
        rcases List.mem_append.mp hc with hc | hc
        · rw [List.mem_singleton.mp hc]
          decide
        · exact hall c hc
      · rw [show ['0'] = List.replicate 1 '0' from rfl, digitsValue_zeros_append, digitsValue_zeros_append,
          digitsValue_digits, List.length_append, List.length_replicate, String.length_toList]
        rwa [show (0 : Int) - (places - ds.length + ds.length : Nat) = d.exponent by omega]

theorem readUnsigned_scientific : readUnsigned (sourceLayout.scientific d).toList = some x := by
  have hx := (isPositiveFinite_parts hfinite hzero).1
  have hdigits := areDigits_digits d.coefficient
  obtain ⟨n, hn, hlow, hhigh⟩ := exists_length_digits (h.pos hx)
  have hbounds := h.leading_bounds hx hlow hhigh
  have hexponent : readExponent ('e' :: (sourceLayout.writeExponent (d.exponent + n)).toList) =
      some (d.exponent + n) := readExponent_write (by omega)
  unfold FloatLayout.scientific
  extract_lets ds mantissa
  have hplace : d.exponent + ds.length - 1 = d.exponent + n := by
    rw [show ds.length = n + 1 from hn]
    omega
  rw [hplace, show (mantissa ++ "e" ++ sourceLayout.writeExponent (d.exponent + n)).toList =
    mantissa.toList ++ 'e' :: (sourceLayout.writeExponent (d.exponent + n)).toList by simp]
  by_cases hshort : ds.length ≤ 1
  · have hone : n = 0 := by omega
    rw [show mantissa = ds from if_pos hshort, readUnsigned_whole hdigits (by simp), hexponent, Option.map_some]
    refine congrArg some (decimalValue_eq hfinite hsign hzero hdigits.2 ?_)
    rwa [digitsValue_digits, hone, Nat.cast_zero, add_zero]
  · rw [show mantissa = placePoint ds 1 from if_neg hshort]
    exact readUnsigned_placePoint hfinite hsign hzero h hn Nat.one_pos (by omega) (by simp) hexponent (by omega)

omit hzero h

/-- Every finite double without a sign is read back from its text. -/
theorem readUnsigned_write : readUnsigned (sourceLayout.write x).toList = some x := by
  have hnumber := isNaN_isInfinite_of_isFinite hfinite
  have hmagnitude : x.magnitude = x.bits := UInt64.toNat_inj.mp (toNat_magnitude_of_sign hsign)
  unfold FloatLayout.write
  rw [if_neg (by simp [hnumber.1])]
  extract_lets sign
  have hempty : sign = "" := if_neg (by simp [hsign])
  rw [hempty, if_neg (by simp [hnumber.2]), String.empty_append]
  split
  · rename_i hzero
    have hx : x = ⟨0⟩ := by
      unfold Double.isZero at hzero
      rw [hmagnitude, beq_iff_eq] at hzero
      exact congrArg Double.mk hzero
    rw [hx]
    decide +kernel
  · rename_i hzero
    have hzero : x.isZero = false := by simpa using hzero
    have habs : x.abs = x := congrArg Double.mk hmagnitude
    rw [String.empty_append, habs]
    unfold FloatLayout.writePositive
    extract_lets d leading
    have h : ReadsAs x.significand x.exponent d.value := readsAs_shortest _ hfinite hzero
    split
    · exact readUnsigned_positional hfinite hsign hzero h
    · exact readUnsigned_scientific hfinite hsign hzero h

end ProgramBreeding.Number

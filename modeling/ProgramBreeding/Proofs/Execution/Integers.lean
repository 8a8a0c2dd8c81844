import ProgramBreeding.Execution.Builtin
import ProgramBreeding.Proofs.Number.Words

/-!
# Integer arithmetic of programs

An operator on two integers, truth values among them, yields the exact integer or reports an overflow.  It
does so although the exact integer fits in two cases only: remainders are found through quotients, and
exponents of more than 32 bits are not looked at.

## Main definitions

* `BinaryOp.integer?` — the integer that an operator stands for.
* `BinaryOp.IsRefused` — operations whose results fit and are reported as overflows all the same.
* `intArithmetic_eq` — what arithmetic on words comes to.
* `integers_exact` — integers that operators and `abs` yield are exact.
* `overflow_iff` — when an overflow is reported.
-/

namespace ProgramBreeding

open Checked (Fits)

/-- The integer that an operator stands for, if any: `/` and negative powers yield no integers, and nothing is
divided by zero.  Quotients are rounded towards negative infinity, remainders go with them. -/
def BinaryOp.integer? (op : BinaryOp) (a b : Int) : Option Int :=
  match op with
  | .add => some (a + b)
  | .sub => some (a - b)
  | .mul => some (a * b)
  | .div => none
  | .floorDiv => if b = 0 then none else some (a.fdiv b)
  | .mod => if b = 0 then none else some (a.fmod b)
  | .pow => if b < 0 then none else some (a ^ b.toNat)

/-- Operations that are given up before their results are looked at: the remainder of the least word by `-1`,
and powers whose exponents have more than 32 bits. -/
def BinaryOp.IsGivenUp (op : BinaryOp) (a b : Int64) : Prop :=
  op = .mod ∧ a = Int64.minValue ∧ b = -1 ∨ op = .pow ∧ maxExponent < b.toInt

instance (op : BinaryOp) (a b : Int64) : Decidable (op.IsGivenUp a b) := inferInstanceAs (Decidable (_ ∨ _))

/-- Operations that are given up although their results fit: the remainder is zero, and powers of `-1`, `0` and
`1` are such numbers again. -/
def BinaryOp.IsRefused (op : BinaryOp) (a b : Int64) : Prop :=
  op = .mod ∧ a = Int64.minValue ∧ b = -1 ∨ op = .pow ∧ maxExponent < b.toInt ∧ a.toInt.natAbs ≤ 1

variable {op : BinaryOp} {a b : Int64} {n : Int}

/-! ### Arithmetic on words -/

theorem toInt_eq_zero_iff {w : Int64} : w.toInt = 0 ↔ w = 0 := by
  rw [← Int64.toInt_inj]
  rfl

theorem integer?_floorDiv_iff : BinaryOp.floorDiv.integer? a.toInt b.toInt = some n ↔
    b ≠ 0 ∧ a.toInt.fdiv b.toInt = n := by
  simp only [BinaryOp.integer?, toInt_eq_zero_iff, Option.ite_none_left_eq_some, Option.some.injEq, ne_eq]

theorem integer?_mod_iff : BinaryOp.mod.integer? a.toInt b.toInt = some n ↔
    b ≠ 0 ∧ a.toInt.fmod b.toInt = n := by
  simp only [BinaryOp.integer?, toInt_eq_zero_iff, Option.ite_none_left_eq_some, Option.some.injEq, ne_eq]

theorem integer?_pow_iff : BinaryOp.pow.integer? a.toInt b.toInt = some n ↔
    ¬ b < 0 ∧ a.toInt ^ b.toInt.toNat = n := by
  have hneg : b < 0 ↔ b.toInt < 0 := Int64.lt_iff_toInt_lt
  simp only [BinaryOp.integer?, hneg, Option.ite_none_left_eq_some, Option.some.injEq]

/-- Arithmetic on words is exact arithmetic, unless it is given up. -/
theorem intArithmetic_eq (h : op.integer? a.toInt b.toInt = some n) :
    intArithmetic op a b = if op.IsGivenUp a b then .error .integerOverflow else orOverflow (Checked.word? n) := by
  cases op with
  | add | sub | mul =>
    cases h
    rfl
  | div => cases h
  | floorDiv =>
    obtain ⟨hb, rfl⟩ := integer?_floorDiv_iff.mp h
    rw [intArithmetic, if_neg hb, Checked.floorDiv_eq hb]
    rfl
  | mod =>
    obtain ⟨hb, rfl⟩ := integer?_mod_iff.mp h
    rw [intArithmetic, if_neg hb, Checked.floorMod_eq hb, apply_ite orOverflow]
    exact if_congr (by simp [BinaryOp.IsGivenUp]) rfl rfl
  | pow =>
    obtain ⟨hb, rfl⟩ := integer?_pow_iff.mp h
    rw [intArithmetic, if_neg hb, Checked.pow_eq]
    exact if_congr (by simp [BinaryOp.IsGivenUp]) rfl rfl

/-- Where an operator stands for no integer, arithmetic yields none. -/
theorem intArithmetic_ne_int (h : op.integer? a.toInt b.toInt = none) (r : Int64) :
    intArithmetic op a b ≠ .ok (.int r) := by
  cases op with
  | add | sub | mul => cases h
  | div =>
    rw [intArithmetic]
    split <;> simp
  | floorDiv | mod =>
    simp only [BinaryOp.integer?, toInt_eq_zero_iff, ite_eq_left_iff, reduceCtorEq, imp_false, not_not] at h
    rw [intArithmetic, if_pos h]
    simp
  | pow =>
    simp only [BinaryOp.integer?, ite_eq_left_iff, reduceCtorEq, imp_false, not_not] at h
    rw [intArithmetic, if_pos (Int64.lt_iff_toInt_lt.mpr h)]
    cases floatArithmetic .pow (.ofInt a.toInt) (.ofInt b.toInt) <;> simp [Except.map]

/-! ### What is given up -/

theorem BinaryOp.IsRefused.isGivenUp (h : op.IsRefused a b) : op.IsGivenUp a b :=
  h.imp_right fun h => ⟨h.1, h.2.1⟩

theorem BinaryOp.IsRefused.fits (h : op.IsRefused a b) (hn : op.integer? a.toInt b.toInt = some n) : Fits n := by
  obtain ⟨rfl, -⟩ | ⟨rfl, -, hunit⟩ := h
  · obtain ⟨hb, rfl⟩ := integer?_mod_iff.mp hn
    exact Checked.fits_fmod a.toInt hb
  · obtain ⟨-, rfl⟩ := integer?_pow_iff.mp hn
    have hle : (a.toInt ^ b.toInt.toNat).natAbs ≤ 1 := by
      rw [Int.natAbs_pow]
      exact pow_le_one' hunit _
    unfold Fits
    omega

/-- What is given up would not have fit, unless it is refused. -/
theorem BinaryOp.IsGivenUp.not_fits (h : op.IsGivenUp a b) (hn : op.integer? a.toInt b.toInt = some n)
    (hrefused : ¬ op.IsRefused a b) : ¬ Fits n := by
  obtain hmod | ⟨rfl, hlarge⟩ := h
  · exact absurd (.inl hmod) hrefused
  · obtain ⟨-, rfl⟩ := integer?_pow_iff.mp hn
    have hbase : ¬ a.toInt.natAbs ≤ 1 := fun hunit => hrefused (.inr ⟨rfl, hlarge, hunit⟩)
    unfold maxExponent at hlarge
    exact Checked.not_fits_pow (by omega) (by omega)

/-! ### Operators -/

section

variable {x y : Value}

/-- Truth values count as integers. -/
theorem binaryOp_of_words (hx : x.int? = some a) (hy : y.int? = some b) (op : BinaryOp) :
    binaryOp op x y = do return (← ofExcept (intArithmetic op a b)).toValue := by
  cases x <;> cases hx <;> cases y <;> cases hy <;> cases op <;> rfl

/-- An operator that stands for an integer yields it or reports an overflow. -/
theorem binaryOp_run (hx : x.int? = some a) (hy : y.int? = some b) (hn : op.integer? a.toInt b.toInt = some n)
    (s : State) :
    (¬ op.IsGivenUp a b ∧ ∃ r, (binaryOp op x y).run s = .ok (.int r) s ∧ r.toInt = n) ∨
      (op.IsGivenUp a b ∨ ¬ Fits n) ∧ (binaryOp op x y).run s = .error (.fault .integerOverflow) s := by
  rw [binaryOp_of_words hx hy, intArithmetic_eq hn]
  split
  · rename_i hup
    exact .inr ⟨.inl hup, rfl⟩
  · rename_i hup
    cases hword : Checked.word? n with
    | some r => exact .inl ⟨hup, r, rfl, Checked.toInt_of_word? hword⟩
    | none => exact .inr ⟨.inr (Checked.word?_eq_none_iff_not_fits.mp hword), rfl⟩

/-- An integer that an operator yields is exact. -/
theorem integer?_of_binaryOp (hx : x.int? = some a) (hy : y.int? = some b) {s t : State} {r : Int64}
    (h : (binaryOp op x y).run s = .ok (.int r) t) : op.integer? a.toInt b.toInt = some r.toInt := by
  cases hn : op.integer? a.toInt b.toInt with
  | none =>
    rw [binaryOp_of_words hx hy] at h
    cases hresult : intArithmetic op a b with
    | error fault =>
      rw [hresult] at h
      cases h
    | ok result =>
      rw [hresult] at h
      cases result with
      | int r' => exact absurd hresult (intArithmetic_ne_int hn r')
      | float f => cases h
  | some n =>
    obtain ⟨-, r', hrun, rfl⟩ | ⟨-, hrun⟩ := binaryOp_run hx hy hn s
    · rw [hrun] at h
      cases h
      rfl
    · rw [hrun] at h
      cases h

theorem toInt_of_neg (hx : x.int? = some a) {s t : State} {r : Int64}
    (h : (signOp .neg x).run s = .ok (.int r) t) : r.toInt = -a.toInt := by
  have hrun : signOp .neg x = do return (← ofExcept (orOverflow (Checked.neg a))).toValue := by
    cases x <;> cases hx <;> rfl
  rw [hrun] at h
  cases hneg : Checked.neg a with
  | none =>
    rw [hneg] at h
    cases h
  | some w =>
    rw [hneg] at h
    cases h
    exact Checked.toInt_of_word? hneg

theorem toInt_of_abs (hx : x.int? = some a) {budget : Budget} {s t : State} {r : Int64}
    (h : (callBuiltin budget .abs [x]).run s = .ok (.int r) t) : r.toInt = a.toInt.natAbs := by
  obtain ⟨_, _, _, hcharge⟩ := run_bind_eq_ok h
  obtain ⟨_, _, _, hresult⟩ := run_bind_eq_ok hcharge
  rw [List.headD_cons] at hresult
  cases habs : Checked.abs a with
  | none =>
    have hrun : absolute x = raise .integerOverflow := by
      cases x <;> cases hx <;> simp only [absolute, Value.int?, habs]
    rw [hrun] at hresult
    cases hresult
  | some w =>
    have hrun : absolute x = pure (.int w) := by
      cases x <;> cases hx <;> simp only [absolute, Value.int?, habs]
    rw [hrun] at hresult
    cases hresult
    exact Checked.toInt_of_word? habs

/-- Nothing is divided by zero, whatever the dividend. -/
theorem binaryOp_zero (hx : x.int? = some a) (hy : y.int? = some 0)
    (hop : op = .div ∨ op = .floorDiv ∨ op = .mod) (s : State) :
    (binaryOp op x y).run s = .error (.fault .divisionByZero) s := by
  rw [binaryOp_of_words hx hy]
  obtain rfl | rfl | rfl := hop <;> rfl

/-- An integer that an operator, a minus sign or `abs` yields for integers, truth values among them, is the
exact one.  Quotient and remainder are those of division towards negative infinity: they give the dividend
back, and the remainder is zero or has the sign of the divisor and is smaller than it.  A division by zero is
always reported as such. -/
theorem integers_exact (hx : x.int? = some a) (hy : y.int? = some b) (s : State) :
    (∀ op r t, (binaryOp op x y).run s = .ok (.int r) t → op.integer? a.toInt b.toInt = some r.toInt) ∧
      (∀ q m t u, (binaryOp .floorDiv x y).run s = .ok (.int q) t → (binaryOp .mod x y).run s = .ok (.int m) u →
        a.toInt = q.toInt * b.toInt + m.toInt) ∧
      (∀ m t, (binaryOp .mod x y).run s = .ok (.int m) t →
        (m = 0 ∨ m.toInt.sign = b.toInt.sign) ∧ m.toInt.natAbs < b.toInt.natAbs) ∧
      (∀ r t, (signOp .neg x).run s = .ok (.int r) t → r.toInt = -a.toInt) ∧
      (∀ budget r t, (callBuiltin budget .abs [x]).run s = .ok (.int r) t → r.toInt = a.toInt.natAbs) ∧
      (b = 0 → ∀ op, op = .div ∨ op = .floorDiv ∨ op = .mod →
        ∃ fault, (binaryOp op x y).run s = .error (.fault fault) s ∧ fault.message = "division by zero") := by
  refine ⟨fun op r t h => integer?_of_binaryOp hx hy h, ?_, ?_, fun r t h => toInt_of_neg hx h,
    fun budget r t h => toInt_of_abs hx h, ?_⟩
  · intro q m t u hquotient hremainder
    obtain ⟨-, hq⟩ := integer?_floorDiv_iff.mp (integer?_of_binaryOp hx hy hquotient)
    obtain ⟨-, hm⟩ := integer?_mod_iff.mp (integer?_of_binaryOp hx hy hremainder)
    rw [← hq, ← hm, Int.mul_comm]
    exact (Int.mul_fdiv_add_fmod a.toInt b.toInt).symm
  · intro m t hremainder
    obtain ⟨hb, hm⟩ := integer?_mod_iff.mp (integer?_of_binaryOp hx hy hremainder)
    rw [← toInt_eq_zero_iff, ← hm]
    exact Checked.fmod_bounds a.toInt (Checked.toInt_ne_zero hb)
  · rintro rfl op hop
    exact ⟨.divisionByZero, binaryOp_zero hx hy hop s, rfl⟩

/-- Rounding lowers the quotient of `-7` by `2`, and the remainder with the sign of the divisor goes with it. -/
theorem integers_exact_lowered :
    Value.int? (.int (-7)) = some (-7) ∧ Value.int? (.int 2) = some 2 ∧
      (binaryOp .floorDiv (.int (-7)) (.int 2)).run {} = .ok (.int (-4)) {} ∧
      (binaryOp .mod (.int (-7)) (.int 2)).run {} = .ok (.int 1) {} ∧
      (-7 : Int64).toInt = (-4 : Int64).toInt * (2 : Int64).toInt + (1 : Int64).toInt := by
  have hquotient : (binaryOp .floorDiv (.int (-7)) (.int 2)).run {} = .ok (.int (-4)) {} := rfl
  have hremainder : (binaryOp .mod (.int (-7)) (.int 2)).run {} = .ok (.int 1) {} := rfl
  obtain ⟨-, hlaw, -⟩ := integers_exact (x := .int (-7)) (y := .int 2) rfl rfl {}
  exact ⟨rfl, rfl, hquotient, hremainder, hlaw (-4) 1 {} {} hquotient hremainder⟩

/-- An overflow is reported if and only if the exact integer does not fit in a word or the operation is refused
although it does; in all other cases the exact integer is the result. -/
theorem overflow_iff (hx : x.int? = some a) (hy : y.int? = some b) (hn : op.integer? a.toInt b.toInt = some n)
    (s : State) :
    ((∃ fault, (binaryOp op x y).run s = .error (.fault fault) s ∧ fault.message = "integer overflow") ↔
        ¬ Fits n ∨ op.IsRefused a b) ∧
      (op.IsRefused a b → Fits n) ∧
      (Fits n → ¬ op.IsRefused a b → ∃ r, (binaryOp op x y).run s = .ok (.int r) s ∧ r.toInt = n) := by
  refine ⟨⟨?_, fun h => ?_⟩, fun h => h.fits hn, fun hfits hrefused => ?_⟩
  · rintro ⟨fault, h, _⟩
    obtain ⟨-, r, hrun, -⟩ | ⟨hreason, -⟩ := binaryOp_run hx hy hn s
    · rw [hrun] at h
      cases h
    · by_cases hrefused : op.IsRefused a b
      · exact .inr hrefused
      · exact .inl (hreason.elim (fun hup => hup.not_fits hn hrefused) id)
  · obtain ⟨hup, r, -, hr⟩ | ⟨-, hrun⟩ := binaryOp_run hx hy hn s
    · exact h.elim (fun hfits => absurd (hr ▸ Checked.fits_toInt r) hfits) fun hrefused =>
        absurd hrefused.isGivenUp hup
    · exact ⟨.integerOverflow, hrun, rfl⟩
  · obtain ⟨-, r, hrun, hr⟩ | ⟨hreason, -⟩ := binaryOp_run hx hy hn s
    · exact ⟨r, hrun, hr⟩
    · exact absurd hfits (hreason.elim (fun hup => hup.not_fits hn hrefused) id)

/-- The quotient of the least word by `-1` is one more than the greatest word. -/
theorem overflow_iff_leastWord :
    Value.int? (.int Int64.minValue) = some Int64.minValue ∧ Value.int? (.int (-1)) = some (-1) ∧
      BinaryOp.floorDiv.integer? Int64.minValue.toInt (-1 : Int64).toInt = some 9223372036854775808 ∧
      ∃ fault, (binaryOp .floorDiv (.int Int64.minValue) (.int (-1))).run {} = .error (.fault fault) {} ∧
        fault.message = "integer overflow" := by
  have hn : BinaryOp.floorDiv.integer? Int64.minValue.toInt (-1 : Int64).toInt = some 9223372036854775808 := rfl
  obtain ⟨hoverflow, -⟩ := overflow_iff (x := .int Int64.minValue) (y := .int (-1)) rfl rfl hn {}
  exact ⟨rfl, rfl, hn, hoverflow.mpr (.inl (by decide))⟩

/-- Overflows are not only reported where the exact integer does not fit: the remainder of the least word by
`-1` is zero. -/
theorem not_overflow_only :
    ¬ ∀ (op : BinaryOp) (a b : Int64) (n : Int) (s : State) (fault : Fault), op.integer? a.toInt b.toInt = some n →
      (binaryOp op (.int a) (.int b)).run s = .error (.fault fault) s → fault.message = "integer overflow" →
        ¬ Fits n := by
  intro h
  exact h .mod Int64.minValue (-1) 0 {} .integerOverflow rfl rfl rfl (by decide)

end

end ProgramBreeding

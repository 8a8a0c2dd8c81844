import Mathlib.Data.Set.Card
import ProgramBreeding.Execution.Builtin
import ProgramBreeding.Proofs.Number.Words

/-!
# Ranges

A range holds the integers from its start on that lie before its bound, one step apart.  There may be more of
them than a list can hold, so the fuel for all of them is spent before any of them is made.

## Main definitions

* `progression` — the integers of a range.
* `IsRange` — the words that these are, in order.
* `AsksForRange` — arguments of one, two and three values, with the range that they ask for.
* `isRange_rangeWords` — the length of a range is the number of its integers.
* `callBuiltin_range` — what the call of `range` does.
-/

namespace ProgramBreeding

open Checked (Fits fits_toInt)

/-! ### Progressions -/

/-- Whether an integer lies strictly before a bound, in the direction of a step. -/
def IsBefore (stop step x : Int) : Prop := if 0 < step then x < stop else stop < x

/-- The integers that are some number of steps after a start and lie before a bound. -/
def progression (start stop step : Int) : Set Int := {x | ∃ k : Nat, x = start + k * step ∧ IsBefore stop step x}

section

variable {start stop step : Int}

/-- The length of a range tells which members of the progression lie before the bound. -/
theorem lt_rangeLength_iff (hstep : step ≠ 0) (k : Nat) :
    k < rangeLength start stop step ↔ IsBefore stop step (start + k * step) := by
  -- In both directions, `k` steps of this size have to stay within the distance to the bound.
  have hdistance (span : Int) : (k < if span ≤ 0 then 0 else (span.toNat - 1) / step.natAbs + 1) ↔
      k * (step.natAbs : Int) < span := by
    have hproduct : 0 ≤ k * (step.natAbs : Int) := Int.mul_nonneg (Int.natCast_nonneg k) (Int.natCast_nonneg _)
    split
    · constructor <;> intro h <;> omega
    · have hsize : 0 < step.natAbs := Int.natAbs_pos.mpr hstep
      rw [Nat.lt_succ_iff, Nat.le_div_iff_mul_le hsize]
      have hcast : ((k * step.natAbs : Nat) : Int) = k * (step.natAbs : Int) := by push_cast; rfl
      omega
  unfold rangeLength IsBefore
  dsimp only
  rw [hdistance]
  split
  · rename_i hpos
    rw [Int.natAbs_of_nonneg hpos.le]
    omega
  · rename_i hneg
    rw [Int.ofNat_natAbs_of_nonpos (Int.not_lt.mp hneg), Int.mul_neg]
    omega

theorem progression_eq_image (hstep : step ≠ 0) :
    progression start stop step = (fun k : Nat => start + k * step) '' Set.Iio (rangeLength start stop step) := by
  ext x
  constructor
  · rintro ⟨k, rfl, hbefore⟩
    exact ⟨k, (lt_rangeLength_iff hstep k).mpr hbefore, rfl⟩
  · rintro ⟨k, hk, rfl⟩
    exact ⟨k, rfl, (lt_rangeLength_iff hstep k).mp hk⟩

/-- Different numbers of steps lead to different integers. -/
theorem encard_progression (hstep : step ≠ 0) :
    (progression start stop step).encard = rangeLength start stop step := by
  have hinjective : Function.Injective fun k : Nat => start + k * step := by
    intro j k heq
    exact_mod_cast mul_right_cancel₀ hstep (add_left_cancel heq)
  rw [progression_eq_image hstep, hinjective.encard_image, ← Finset.coe_range, Set.encard_coe_eq_coe_finsetCard,
    Finset.card_range]

end

/-! ### Words -/

section

variable {start stop step : Int64}

/-- What lies between two words is a word. -/
theorem fits_of_isBefore {k : Nat} (h : IsBefore stop.toInt step.toInt (start.toInt + k * step.toInt)) :
    Fits (start.toInt + k * step.toInt) := by
  have hstart := fits_toInt start
  have hstop := fits_toInt stop
  unfold IsBefore at h
  unfold Fits at hstart hstop ⊢
  split at h
  · rename_i hpos
    have : 0 ≤ k * step.toInt := mul_nonneg (Int.natCast_nonneg k) hpos.le
    omega
  · rename_i hneg
    have : k * step.toInt ≤ 0 := mul_nonpos_of_nonneg_of_nonpos (Int.natCast_nonneg k) (Int.not_lt.mp hneg)
    omega

/-- There are less integers between two words than words. -/
theorem rangeLength_lt (start stop step : Int64) :
    rangeLength start.toInt stop.toInt step.toInt < UInt64.size := by
  have hstart := fits_toInt start
  have hstop := fits_toInt stop
  unfold Fits at hstart hstop
  have hsize : UInt64.size = 18446744073709551616 := rfl
  have hlength (span : Int) (hspan : span < UInt64.size) :
      (if span ≤ 0 then 0 else (span.toNat - 1) / step.toInt.natAbs + 1) < UInt64.size := by
    have := Nat.div_le_self (span.toNat - 1) step.toInt.natAbs
    split <;> omega
  refine hlength _ ?_
  split <;> omega

/-- The words of a range. -/
def rangeWords (start step : Int) (length : Nat) : List Int64 :=
  (List.range length).map fun (k : Nat) => Int64.ofInt (start + k * step)

theorem arithmeticRange_eq (start step : Int) (length : Nat) :
    arithmeticRange start step length = ((rangeWords start step length).map Value.int).toArray := by
  unfold arithmeticRange rangeWords
  rw [List.map_map]
  rfl

/-- The integers of a progression, each of them once and in the order of the steps. -/
structure IsRange (items : List Int64) (start stop step : Int) : Prop where
  encard_eq : (progression start stop step).encard = items.length
  mem_iff (x : Int) : x ∈ progression start stop step ↔ ∃ w ∈ items, w.toInt = x
  map_toInt : items.map Int64.toInt = (List.range items.length).map fun (k : Nat) => start + k * step

theorem isRange_rangeWords (hstep : step.toInt ≠ 0) :
    IsRange (rangeWords start.toInt step.toInt (rangeLength start.toInt stop.toInt step.toInt))
      start.toInt stop.toInt step.toInt := by
  have hexact {k : Nat} (hk : k < rangeLength start.toInt stop.toInt step.toInt) :
      (Int64.ofInt (start.toInt + k * step.toInt)).toInt = start.toInt + k * step.toInt := by
    obtain ⟨hlow, hhigh⟩ := fits_of_isBefore ((lt_rangeLength_iff hstep k).mp hk)
    exact Int64.toInt_ofInt_of_le hlow (by omega)
  have hlength : (rangeWords start.toInt step.toInt (rangeLength start.toInt stop.toInt step.toInt)).length =
      rangeLength start.toInt stop.toInt step.toInt := by
    rw [rangeWords, List.length_map, List.length_range]
  refine ⟨?_, fun x => ?_, ?_⟩
  · rw [hlength]
    exact encard_progression hstep
  · rw [progression_eq_image hstep]
    constructor
    · rintro ⟨k, hk, rfl⟩
      exact ⟨_, List.mem_map.mpr ⟨k, List.mem_range.mpr hk, rfl⟩, hexact hk⟩
    · rintro ⟨w, hw, rfl⟩
      obtain ⟨k, hk, rfl⟩ := List.mem_map.mp hw
      exact ⟨k, List.mem_range.mp hk, (hexact (List.mem_range.mp hk)).symm⟩
  · rw [hlength, rangeWords, List.map_map]
    exact List.map_congr_left fun k hk => hexact (List.mem_range.mp hk)

end

/-! ### Calls -/

/-- Arguments of `range`, with the start, the bound and the step that they stand for.  Truth values count as
integers. -/
inductive AsksForRange : List Value → Int64 → Int64 → Int64 → Prop
  | one {v : Value} {stop : Int64} (hv : v.int? = some stop) : AsksForRange [v] 0 stop 1
  | two {u v : Value} {start stop : Int64} (hu : u.int? = some start) (hv : v.int? = some stop) :
      AsksForRange [u, v] start stop 1
  | three {u v w : Value} {start stop step : Int64} (hu : u.int? = some start) (hv : v.int? = some stop)
      (hw : w.int? = some step) : AsksForRange [u, v, w] start stop step

section

variable {args : List Value} {start stop step : Int64}

/-- All three forms come to a start, a bound and a step. -/
theorem AsksForRange.bounds (h : AsksForRange args start stop step) :
    requireCount "range" args 1 3 = pure () ∧ ∃ words, rangeArguments args = .ok words ∧
      rangeBounds words = (start.toInt, stop.toInt, step.toInt) := by
  cases h with
  | @one v stop hv => exact ⟨rfl, [stop], by simp [rangeArguments, hv, Except.map], rfl⟩
  | @two u v start stop hu hv => exact ⟨rfl, [start, stop], by simp [rangeArguments, hu, hv, Except.map], rfl⟩
  | @three u v w start stop step hu hv hw =>
    exact ⟨rfl, [start, stop, step], by simp [rangeArguments, hu, hv, hw, Except.map], rfl⟩

/-- The fuel is spent first, then the length is looked at, and the list is made last. -/
theorem callRange_eq (h : AsksForRange args start stop step) (hstep : step.toInt ≠ 0) (budget : Budget) :
    callRange budget args = (do
      charge budget (cost (rangeLength start.toInt stop.toInt step.toInt))
      if maxSequence < rangeLength start.toInt stop.toInt step.toInt then raise .rangeTooLarge
      else newList (arithmeticRange start.toInt step.toInt (rangeLength start.toInt stop.toInt step.toInt))) := by
  obtain ⟨hcount, words, hwords, hbounds⟩ := h.bounds
  unfold callRange
  rw [hcount, hwords]
  simp only [ofExcept, pure_bind, hbounds, if_neg hstep]
  rfl

/-- A charge that the fuel suffices for goes through, if nobody interrupts the run and it is not aborted. -/
theorem charge_of_le {budget : Budget} {units : UInt64} {s : State}
    (hfuel : s.used.toNat + units.toNat ≤ budget.fuel.toNat) (hexact : budget.overflows (s.used + units) = false)
    (hcancelled : ∀ used, budget.cancelled used = false) (hexpired : ∀ used, budget.expired used = false) :
    ∃ nextPoll, (charge budget units).run s = .ok () { s with used := s.used + units, nextPoll } := by
  have hsum : saturatingAdd s.used units = s.used + units :=
    if_pos (Nat.lt_of_le_of_lt hfuel budget.fuel.toNat_lt_size)
  have hwithin : ¬ budget.fuel < s.used + units := by
    rw [UInt64.lt_iff_toNat_lt, UInt64.toNat_add, Nat.not_lt]
    exact (Nat.mod_le _ _).trans hfuel
  rw [charge_eq]
  dsimp only
  rw [hsum, if_neg hwithin, hexact, hcancelled, hexpired]
  split
  · exact ⟨_, rfl⟩
  · exact ⟨_, rfl⟩

/-- The call of `range` spends one unit and a quarter of the number of its integers before it does anything
else.  With enough fuel, and if it is not aborted for the next mark, it then fails if and only if there are more
than `2 ^ 20` of them, and otherwise it makes the list of just these integers in order. -/
theorem callBuiltin_range (hargs : AsksForRange args start stop step) (hstep : step ≠ 0) (budget : Budget) :
    ∃ (items : List Int64) (units : UInt64), IsRange items start.toInt stop.toInt step.toInt ∧
      units.toNat = 1 + items.length / 4 ∧
      callBuiltin budget .range args = (do
        charge budget units
        if 2 ^ 20 < items.length then raise .rangeTooLarge else newList (items.map Value.int).toArray) ∧
      ∀ s : State, s.used.toNat + units.toNat ≤ budget.fuel.toNat → budget.overflows (s.used + units) = false →
        (∀ used, budget.cancelled used = false) → (∀ used, budget.expired used = false) →
        ((∃ fault t, (callBuiltin budget .range args).run s = .error (.fault fault) t ∧
            fault.message = "range too large") ↔ 2 ^ 20 < items.length) ∧
          (items.length ≤ 2 ^ 20 → ∃ ref t, (callBuiltin budget .range args).run s = .ok (.list ref) t ∧
            t.heap.items ref = (items.map Value.int).toArray ∧ t.used = s.used + units) := by
  have hstep := Checked.toInt_ne_zero hstep
  have hrange : IsRange (rangeWords start.toInt step.toInt (rangeLength start.toInt stop.toInt step.toInt)) start.toInt
      stop.toInt step.toInt := isRange_rangeWords hstep
  have hcall := callRange_eq hargs hstep budget
  have hcost := toNat_cost (rangeLength start.toInt stop.toInt step.toInt)
  rw [Nat.min_eq_left (Nat.le_of_lt_succ (rangeLength_lt start stop step))] at hcost
  have hlength : (rangeWords start.toInt step.toInt (rangeLength start.toInt stop.toInt step.toInt)).length =
      rangeLength start.toInt stop.toInt step.toInt := by
    rw [rangeWords, List.length_map, List.length_range]
  rw [arithmeticRange_eq] at hcall
  generalize hitems : rangeWords start.toInt step.toInt (rangeLength start.toInt stop.toInt step.toInt) = items at *
  rw [← hlength] at hcall hcost
  refine ⟨items, cost items.length, hrange, hcost, hcall, fun s hfuel hexact hcancelled hexpired => ?_⟩
  obtain ⟨nextPoll, hcharge⟩ := charge_of_le hfuel hexact hcancelled hexpired
  have hrun : (callBuiltin budget .range args).run s = _ :=
    (congrArg (EStateM.run · s) hcall).trans (run_bind_ok hcharge)
  rw [hrun]
  by_cases hlarge : maxSequence < items.length
  · rw [if_pos hlarge]
    exact ⟨⟨fun _ => hlarge, fun _ => ⟨_, _, rfl, rfl⟩⟩, fun hle => absurd hlarge (Nat.not_lt.mpr hle)⟩
  · rw [if_neg hlarge]
    refine ⟨⟨?_, fun h => absurd h hlarge⟩, fun _ => ⟨_, _, rfl, ?_, rfl⟩⟩
    · rintro ⟨fault, t, h, -⟩
      cases h
    · simp [Heap.items]

/-- From the greatest word down by the least one there are two integers before the least word. -/
theorem callBuiltin_range_extremes :
    AsksForRange [.int Int64.maxValue, .int Int64.minValue, .int Int64.minValue] Int64.maxValue Int64.minValue
        Int64.minValue ∧ Int64.minValue ≠ 0 ∧
      ∃ ref t, (callBuiltin { fuel := 1, checked := true } .range
          [.int Int64.maxValue, .int Int64.minValue, .int Int64.minValue]).run {} = .ok (.list ref) t ∧
        t.heap.items ref = #[.int Int64.maxValue, .int (-1)] ∧ t.used = 1 := by
  have hargs : AsksForRange [.int Int64.maxValue, .int Int64.minValue, .int Int64.minValue] Int64.maxValue
      Int64.minValue Int64.minValue := .three rfl rfl rfl
  obtain ⟨items, units, hrange, hunits, -, hrun⟩ := callBuiltin_range hargs (by decide) { fuel := 1, checked := true }
  have hlength : items.length = 2 := by
    have hcount := hrange.encard_eq.symm.trans (encard_progression (by decide))
    exact_mod_cast hcount
  have hitems : items = [Int64.maxValue, -1] := by
    have hmap := hrange.map_toInt
    rw [hlength] at hmap
    exact List.map_injective_iff.mpr (fun _ _ => Int64.toInt_inj.mp) hmap
  have hone : units = 1 := by
    rw [hlength] at hunits
    exact UInt64.toNat_inj.mp hunits
  subst hitems hone
  obtain ⟨-, hlist⟩ := hrun {} (by decide) (by decide) (fun _ => rfl) fun _ => rfl
  obtain ⟨ref, t, hok, hnew, hused⟩ := hlist (by decide)
  exact ⟨hargs, by decide, ref, t, hok, hnew, hused⟩

end

end ProgramBreeding

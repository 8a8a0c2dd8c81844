import ProgramBreeding.Breeding.Harness
import ProgramBreeding.Proofs.Breeding.Offspring
import ProgramBreeding.Proofs.Execution.Interruption
import ProgramBreeding.Proofs.Rule.Derived

/-!
# A program beside its own record

A program passes the cases that were recorded of it: every call comes to what is on record, for the fuel
on record.

## Main definitions

* `TestCase.RecordedOf` — cases that hold what a call of a program has come to.
* `Harness.recorded` — the cases of a record are such.
* `Harness.Undisturbed` — a comparison that nobody cuts off.
* `Harness.replayFrom_passes` — cases that pass are counted, and nothing else is.
* `Harness.record_replay` — a program compared with its own record.

## Design notes

A call is recorded with one amount of fuel and replayed with another, which may be more or less.  It is
never less than what the call took, as long as the fuel on record is multiplied by one at least.

Without cases there is nothing on record, and the program only has to load.  It may fail to do so.
-/

namespace ProgramBreeding

open Chance

/-! ### Data that equal themselves -/

mutual

/-- Whether an undefined double stands somewhere in plain data. -/
def Datum.hasNaN : Datum → Bool
  | .float x => x.isNaN
  | .list items => Datum.anyHasNaN items
  | _ => false

/-- Whether an undefined double stands somewhere in some plain data. -/
def Datum.anyHasNaN : List Datum → Bool
  | [] => false
  | d :: rest => d.hasNaN || Datum.anyHasNaN rest

end

theorem Double.equals_self {x : Double} (h : x.isNaN = false) : x.equals x = true := by
  simp [Double.equals, h]

mutual

/-- Only an undefined double is not equal to itself. -/
theorem Datum.equal_self : ∀ {d : Datum}, d.hasNaN = false → d.equal d = true
  | .none, _ => rfl
  | .bool b, _ => beq_self_eq_true b
  | .int i, _ => beq_self_eq_true i
  | .float _, h => Double.equals_self h
  | .str s, _ => beq_self_eq_true s
  | .list _, h => Datum.allEqual_self h

theorem Datum.allEqual_self : ∀ {ds : List Datum}, Datum.anyHasNaN ds = false → Datum.allEqual ds ds = true
  | [], _ => rfl
  | _ :: _, h => by
    obtain ⟨hd, hrest⟩ := Bool.or_eq_false_iff.mp h
    exact Bool.and_eq_true_iff.mpr ⟨Datum.equal_self hd, Datum.allEqual_self hrest⟩

end

/-! ### What is on record -/

/-- The case holds what a call of the program has come to. -/
def TestCase.RecordedOf (c : TestCase) (settings : HarnessSettings) (p : Program) : Prop :=
  p.run { fuel := settings.referenceFuel } c.function c.args = .ok ⟨c.expected, c.output, c.referenceFuel⟩

theorem recordCase_recorded {settings : HarnessSettings} {p : Program} {function : String} {args : List Datum}
    {c : TestCase} (h : recordCase settings p function args = some c) : c.RecordedOf settings p := by
  unfold recordCase at h
  split at h
  · cases h
    assumption
  · cases h

section

variable {G : Type} [RandomSource G]

theorem recordFunction_recorded (settings : HarnessSettings) (p : Program) (function : String) (arity : Nat) :
    Always G (recordFunction settings p function arity) fun cases => ∀ c ∈ cases, c.RecordedOf settings p := by
  refine (Always.trivial _).bind fun attempts _ => .pure fun c hc => ?_
  obtain ⟨args, -, hrecord⟩ := List.mem_filterMap.mp hc
  exact recordCase_recorded hrecord

theorem recordFunctions_recorded (settings : HarnessSettings) (p : Program) : ∀ signatures : List (String × Nat),
    Always G (recordFunctions settings p signatures) fun cases => ∀ c ∈ cases, c.RecordedOf settings p
  | [] => .pure nofun
  | (function, arity) :: rest => by
    refine (recordFunction_recorded settings p function arity).bind fun cases hcases => ?_
    refine (recordFunctions_recorded settings p rest).bind fun others hothers => .pure fun c hc => ?_
    rcases List.mem_append.mp hc with hc | hc
    · exact hcases c hc
    · exact hothers c hc

end

/-- What is cut off from outside is no failure. -/
theorem Tally.failures_stop {stop : Stop} (h : stop.isInterruption = true) (tally : Tally) :
    (tally.stop stop).failures = tally.failures := by
  cases stop <;> first | rfl | cases h

namespace Harness

/-- Every case on record holds what a call of the program has come to. -/
theorem recorded {G : Type} [RandomSource G] (settings : HarnessSettings) (t : Tree) :
    ∀ c ∈ (record G settings t).cases, c.RecordedOf settings (.ofTree t) :=
  recordFunctions_recorded settings (.ofTree t) t.signatures _

/-! ### Replayed calls -/

/-- The fuel for replaying a case is no less than what it took. -/
theorem referenceFuel_le_fuelLimit (h : Harness) (c : TestCase) (hmultiplier : 1 ≤ h.settings.fuelMultiplier) :
    c.referenceFuel ≤ h.fuelLimit c := by
  have hmultiplier : 1 ≤ h.settings.fuelMultiplier.toNat := UInt64.le_iff_toNat_le.mp hmultiplier
  have hproduct := Nat.le_mul_of_pos_right c.referenceFuel.toNat hmultiplier
  have hreference := c.referenceFuel.toNat_lt_size
  have hleast := h.settings.minFuel.toNat_lt_size
  rw [UInt64.le_iff_toNat_le, fuelLimit, Nat.toUInt64_eq, UInt64.toNat_ofNat_of_lt' (by omega)]
  omega

/-- Neither the clock nor the cancel flag cuts a comparison off: no call ends for one of them, nor does
loading where there is nothing else to do. -/
structure Undisturbed (h : Harness) (p : Program) (watch : Watch) : Prop where
  call : ∀ {i : Nat} {c : TestCase} {stop : Stop}, h.cases[i]? = some c →
    p.run (h.budget (h.fuelLimit c) watch i) c.function c.args = .error stop → stop.isInterruption = false
  loading : ∀ {stop : Stop} {s : State}, h.cases = [] →
    p.load (h.budget h.settings.minFuel watch 0) {} = .error stop s → stop.isInterruption = false

variable {G : Type} [RandomSource G] {settings : HarnessSettings} {t : Tree} {watch : Watch}

/-- A call on record comes to what is on record, unless it is cut off. -/
theorem replay_call (hmultiplier : 1 ≤ settings.fuelMultiplier) {c : TestCase}
    (hc : c ∈ (record G settings t).cases) (i : Nat) :
    let budget := (record G settings t).budget ((record G settings t).fuelLimit c) watch i
    (Program.ofTree t).run budget c.function c.args = .ok ⟨c.expected, c.output, c.referenceFuel⟩ ∨
      ∃ stop, (Program.ofTree t).run budget c.function c.args = .error stop ∧ budget.Interrupts stop :=
  Program.run_again (recorded settings t c hc) (referenceFuel_le_fuelLimit _ c hmultiplier) rfl

/-- The case with number `i` comes to the result on record. -/
def Passes (h : Harness) (p : Program) (watch : Watch) (i : Nat) (c : TestCase) : Prop :=
  ∃ e, p.run (h.budget (h.fuelLimit c) watch i) c.function c.args = .ok e ∧ c.passes e = true

theorem replayCase_passes {h : Harness} {p : Program} {i : Nat} {c : TestCase} (hpasses : h.Passes p watch i c)
    (tally : Tally) :
    ∃ shares, h.replayCase p watch i c tally = { tally with passed := tally.passed + 1, shares } := by
  obtain ⟨e, hrun, he⟩ := hpasses
  refine ⟨tally.shares + share c.referenceFuel e.used, ?_⟩
  rw [replayCase, hrun]
  exact if_pos he

/-- Cases that pass are counted one by one, and nothing else is.  By induction on the cases. -/
theorem replayFrom_passes {h : Harness} {p : Program} {timeouts failures : Nat} (cases : List TestCase) :
    ∀ (i passed : Nat) (shares : Double),
      (∀ (j : Nat) (c : TestCase), cases[j]? = some c → h.Passes p watch (i + j) c) →
      ∃ shares', h.replayFrom p watch i cases ⟨passed, shares, timeouts, failures, false⟩ =
        ⟨passed + cases.length, shares', timeouts, failures, false⟩ := by
  induction cases with
  | nil =>
    intro i passed shares _
    exact ⟨shares, rfl⟩
  | cons c rest ih =>
    intro i passed shares hpasses
    have hfirst : h.Passes p watch i c := hpasses 0 c rfl
    obtain ⟨shares', hcase⟩ := replayCase_passes hfirst ⟨passed, shares, timeouts, failures, false⟩
    obtain ⟨shares'', hrest⟩ := ih (i + 1) (passed + 1) shares' fun j c hc => by
      rw [Nat.add_right_comm]
      exact hpasses (j + 1) c hc
    refine ⟨shares'', ?_⟩
    rw [replayFrom, hcase, List.length_cons, Nat.add_comm rest.length, ← Nat.add_assoc]
    exact (if_neg Bool.false_ne_true).trans hrest

/-- A case that an undisturbed comparison replays comes to what is on record, for the fuel on record. -/
theorem replay_recorded (hmultiplier : 1 ≤ settings.fuelMultiplier)
    (hundisturbed : (record G settings t).Undisturbed (.ofTree t) watch) {i : Nat} {c : TestCase}
    (hc : (record G settings t).cases[i]? = some c) :
    (Program.ofTree t).run ((record G settings t).budget ((record G settings t).fuelLimit c) watch i) c.function
        c.args =
      .ok ⟨c.expected, c.output, c.referenceFuel⟩ := by
  rcases replay_call hmultiplier (List.mem_of_getElem? hc) i with hrun | ⟨stop, hrun, hstop⟩
  · exact hrun
  · exact absurd hstop.isInterruption (Bool.not_eq_true _ ▸ hundisturbed.call hc hrun)

/-- A comparison in which no look finds anything is undisturbed. -/
theorem undisturbed_of_quiet (hmultiplier : 1 ≤ settings.fuelMultiplier) (htimeout : settings.caseTimeout ≠ 0)
    (hquiet : ∀ i used, watch.cancelled i used = false ∧ watch.late i used = false)
    (hcases : (record G settings t).cases ≠ []) : (record G settings t).Undisturbed (.ofTree t) watch where
  call hc hrun := by
    rcases replay_call hmultiplier (List.mem_of_getElem? hc) _ with hrun' | ⟨stop, -, hstop⟩
    · rw [hrun'] at hrun
      cases hrun
    · cases hstop with
      | cancelled used hfound => exact absurd hfound (by simp [budget, hquiet])
      | deadline used hfound => exact absurd hfound (by simp [budget, record, htimeout, hquiet])
  loading hnone := absurd hnone hcases

/-- A program that only has to load, and does so unless it is interrupted, is compared without fault. -/
theorem replayLoading_loads {h : Harness} {p : Program} (hundisturbed : h.Undisturbed p watch)
    (hnone : h.cases = []) {s : State} (hloads : p.load { fuel := h.settings.minFuel } {} = .ok () s) :
    h.replayLoading p watch = ⟨1.0, 0.5, 0, 0, false⟩ := by
  let budget := h.budget h.settings.minFuel watch 0
  have hloads : (p.load { fuel := budget.fuel }).run {} = .ok () s := hloads
  rcases Program.load_again hloads rfl with hrun | ⟨stop, s', hrun, hstop⟩
  · rw [replayLoading, show p.load budget {} = _ from hrun]
  · exact absurd hstop.isInterruption (Bool.not_eq_true _ ▸ hundisturbed.loading hnone hrun)

/-- A program passes all cases that were recorded of it, and each takes the fuel on record; none runs out of
fuel or time, fails or is cancelled.  If nothing was recorded, the program has to load. -/
theorem record_replay (hmultiplier : 1 ≤ settings.fuelMultiplier)
    (hnumbers : ∀ c ∈ (record G settings t).cases, c.expected.hasNaN = false)
    (hundisturbed : (record G settings t).Undisturbed (.ofTree t) watch)
    (hloads : (record G settings t).cases = [] →
      ∃ s, (Program.ofTree t).load { fuel := settings.minFuel } {} = .ok () s) :
    let h := record G settings t
    let p := Program.ofTree t
    let report := h.replay t watch
    (h.replayFrom p watch 0 h.cases {}).passed = h.cases.length ∧
      report.timeouts = 0 ∧ report.failures = 0 ∧ report.cancelled = false ∧
      ∀ (i : Nat) (c : TestCase), h.cases[i]? = some c →
        ∃ e, p.run (h.budget (h.fuelLimit c) watch i) c.function c.args = .ok e ∧ e.used = c.referenceFuel := by
  intro h p report
  have hruns : ∀ (i : Nat) (c : TestCase), h.cases[i]? = some c →
      p.run (h.budget (h.fuelLimit c) watch i) c.function c.args = .ok ⟨c.expected, c.output, c.referenceFuel⟩ :=
    fun i c hc => replay_recorded hmultiplier hundisturbed hc
  have hpasses : ∀ (j : Nat) (c : TestCase), h.cases[j]? = some c → h.Passes p watch (0 + j) c := by
    intro j c hc
    refine ⟨_, by rw [Nat.zero_add]; exact hruns j c hc, ?_⟩
    simp [TestCase.passes, Datum.equal_self (hnumbers c (List.mem_of_getElem? hc))]
  obtain ⟨shares, htally⟩ : ∃ shares, h.replayFrom p watch 0 h.cases {} =
      ⟨0 + h.cases.length, shares, 0, 0, false⟩ := replayFrom_passes h.cases 0 0 0.0 hpasses
  have hpassed : (h.replayFrom p watch 0 h.cases {}).passed = h.cases.length := by
    rw [htally, Nat.zero_add]
  refine ⟨hpassed, ?_⟩
  rw [← and_assoc, ← and_assoc]
  refine ⟨?_, fun i c hc => ⟨_, hruns i c hc, rfl⟩⟩
  by_cases hnone : h.cases = []
  · obtain ⟨s, hs⟩ := hloads hnone
    have hreport : report = ⟨1.0, 0.5, 0, 0, false⟩ := by
      show h.replay t watch = _
      rw [replay, if_pos (List.isEmpty_iff.mpr hnone)]
      exact replayLoading_loads hundisturbed hnone hs
    rw [hreport]
    exact ⟨⟨rfl, rfl⟩, rfl⟩
  · have hsome : ¬ h.cases.isEmpty = true := fun hempty => hnone (List.isEmpty_iff.mp hempty)
    show ((h.replay t watch).timeouts = 0 ∧ (h.replay t watch).failures = 0) ∧ (h.replay t watch).cancelled = false
    rw [replay, if_neg hsome]
    dsimp only
    rw [htally]
    exact ⟨⟨rfl, rfl⟩, rfl⟩

/-- A program that works on numbers and fails on lists. -/
def successor : String := "def f(x):\n    return x + 1\n"

theorem record_replay_successor : ∃ t, treeOf successor = .ok t ∧ (record Generator {} t).cases ≠ [] ∧
    ((record Generator {} t).replayFrom (.ofTree t) {} 0 (record Generator {} t).cases {}).passed =
        (record Generator {} t).cases.length ∧
      ((record Generator {} t).replay t {}).timeouts = 0 ∧ ((record Generator {} t).replay t {}).failures = 0 := by
  have hrecord : ((treeOf successor).toOption.any fun t => !(record Generator {} t).cases.isEmpty &&
      (record Generator {} t).cases.all fun c => !c.expected.hasNaN) = true := by decide +kernel
  obtain ⟨t, ht, hrecord⟩ := (Option.any_eq_true _ _).mp hrecord
  obtain ⟨hcases, hnumbers⟩ := Bool.and_eq_true_iff.mp hrecord
  have hcases : (record Generator {} t).cases ≠ [] := by simpa using hcases
  have hnumbers : ∀ c ∈ (record Generator {} t).cases, c.expected.hasNaN = false := by simpa using hnumbers
  have hundisturbed : (record Generator {} t).Undisturbed (.ofTree t) {} :=
    undisturbed_of_quiet (by decide) (by decide) (fun _ _ => ⟨rfl, rfl⟩) hcases
  obtain ⟨hpassed, htimeouts, hfailures, -⟩ :=
    record_replay (by decide) hnumbers hundisturbed fun hnone => absurd hnone hcases
  exact ⟨t, toOption_eq_some.mp ht, hcases, hpassed, htimeouts, hfailures⟩

/-! ### Nothing on record -/

/-- A program without functions that cannot be loaded. -/
def unloadable : String := "x = 1 // 0\n"

/-- A program of which nothing was recorded may fail nevertheless. -/
theorem not_record_replay : ¬ ∀ (settings : HarnessSettings) (text : String) (t : Tree) (watch : Watch),
    treeOf text = .ok t → 1 ≤ settings.fuelMultiplier →
    (∀ c ∈ (record Generator settings t).cases, c.expected.hasNaN = false) →
    (record Generator settings t).Undisturbed (.ofTree t) watch →
    ((record Generator settings t).replay t watch).timeouts = 0 ∧
      ((record Generator settings t).replay t watch).failures = 0 ∧
      ((record Generator settings t).replay t watch).cancelled = false := by
  have hreplay : ((treeOf unloadable).toOption.any fun t => (record Generator {} t).cases.isEmpty &&
      ((record Generator {} t).replayLoading (.ofTree t) {}).failures != 0) = true := by decide +kernel
  obtain ⟨t, ht, hreplay⟩ := (Option.any_eq_true _ _).mp hreplay
  obtain ⟨hnone, hfailures⟩ := Bool.and_eq_true_iff.mp hreplay
  have hcases : (record Generator {} t).cases = [] := List.isEmpty_iff.mp hnone
  have hundisturbed : (record Generator {} t).Undisturbed (.ofTree t) {} := by
    refine ⟨fun hc _ => ?_, fun _ hload => ?_⟩
    · rw [hcases] at hc
      cases hc
    · rw [replayLoading, hload] at hfailures
      dsimp only at hfailures
      refine Bool.eq_false_iff.mpr fun hstop => ?_
      rw [Tally.failures_stop hstop] at hfailures
      cases hfailures
  intro hall
  obtain ⟨-, hzero, -⟩ := hall {} unloadable t {} (toOption_eq_some.mp ht) (by decide)
    (by rw [hcases]; exact nofun) hundisturbed
  rw [replay, if_pos hnone] at hzero
  rw [hzero] at hfailures
  cases hfailures

end Harness

end ProgramBreeding

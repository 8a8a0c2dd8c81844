import ProgramBreeding.Proofs.Execution.Ledger

/-!
# Runs that are stopped at their first look

A run that was cancelled before it began, or whose time was over by then, does what it does anyway until the
first charge that reaches the mark.  There it looks, and stops.

## Main definitions

* `Budget.AlwaysStops` — budgets under which every look stops the run.
* `Charge.Reaches` — charges within the fuel that reach the first mark.
* `Heeds` — an action that nobody interrupts, and the same action under such a budget.
* `heeds_congruence` — composed actions do the same up to the first look.
* `Program.run_stops_at_first_look` — when a run is stopped, and what it does until then.

## Design notes

Up to the first look the mark is where it was at the beginning, so it is enough to compare actions from states
in which it has not been reached.  A charge that passes the fuel never reaches the mark, since fuel is looked
at first.
-/

namespace ProgramBreeding

variable {α β : Type}

/-- Budgets under which every look stops the run: it was cancelled beforehand, or its time was over. -/
inductive Budget.AlwaysStops (budget : Budget) : Stop → Prop
  | cancelled (h : ∀ used, budget.cancelled used = true) : AlwaysStops budget .cancelled
  | deadline (h : ∀ used, budget.cancelled used = false) (h' : ∀ used, budget.expired used = true) :
    AlwaysStops budget .deadline

/-- A charge within the fuel that reaches the first mark. -/
def Charge.Reaches (fuel : UInt64) (c : Charge) : Prop := pollInterval ≤ c.used ∧ c.used ≤ fuel

/-- A state before the first look. -/
structure State.IsEarly (s : State) : Prop where
  nextPoll : s.nextPoll = pollInterval
  used : s.used < pollInterval

theorem State.IsEarly.of_eq {s t : State} (h : s.IsEarly) (hused : t.used = s.used)
    (hpoll : t.nextPoll = s.nextPoll) : t.IsEarly :=
  ⟨hpoll.trans h.nextPoll, by rw [hused]; exact h.used⟩

/-- What two actions do from a state, the first of which nobody interrupts.  Either no charge reaches the
mark, and they do the same; or one does, and the second action makes the charges of the first up to that one
and is stopped there. -/
inductive HeedsFrom (fuel : UInt64) (stop : Stop) (s : State) (m m' : Recorded α) : Prop
  | unmoved (hcharges : m'.charges s = m.charges s) (hrun : m'.act.run s = m.act.run s)
    (hnone : ∀ c ∈ m.charges s, ¬ c.Reaches fuel) (hends : ∀ a t, m.act.run s = .ok a t → t.IsEarly)
  | stopped (before : List Charge) (c : Charge) (after : List Charge)
    (hplain : m.charges s = before ++ c :: after) (hbefore : ∀ b ∈ before, ¬ b.Reaches fuel)
    (hc : c.Reaches fuel) (hcharges : m'.charges s = before ++ [c]) (t : State)
    (hrun : m'.act.run s = .error stop t)

/-- An action that nobody interrupts, and the same action under a budget of which every look stops the run. -/
def Heeds (fuel : UInt64) (stop : Stop) (m m' : Recorded α) : Prop :=
  ∀ s : State, s.IsEarly → HeedsFrom fuel stop s m m'

namespace Heeds

variable {budget : Budget} {fuel : UInt64} {stop : Stop}

/-- What makes no charge makes no look. -/
protected theorem step {m : Exec α} (h : ∀ s : State, s.IsEarly → (endState (m.run s)).IsEarly) :
    Heeds fuel stop (.step m) (.step m) := by
  intro s hs
  refine .unmoved rfl rfl (fun _ hc => absurd hc (List.not_mem_nil)) fun a t hrun => ?_
  have hend := h s hs
  rw [show m.run s = .ok a t from hrun] at hend
  exact hend

/-- Too little is spent before the first look for the next mark not to be a word. -/
theorem overflows_eq_false {units : UInt64} {s : State} (hs : s.IsEarly) (hunits : IsPrice units) :
    budget.overflows (saturatingAdd s.used units) = false := by
  have hused := UInt64.lt_iff_toNat_lt.mp hs.used
  have hle := UInt64.le_iff_toNat_le.mp hunits.le
  have hinterval : pollInterval.toNat = 256 := rfl
  have hmax : maxUnits.toNat = 4611686018427387904 := rfl
  unfold Budget.overflows
  rw [toNat_saturatingAdd, decide_eq_false (by dsimp only [UInt64.size]; omega), Bool.and_false]

/-- A look at the mark stops the run. -/
theorem charge_eq_stop (h : budget.AlwaysStops stop) {units : UInt64} {s : State}
    (hfuel : ¬ budget.fuel < saturatingAdd s.used units) (hpoll : s.nextPoll ≤ saturatingAdd s.used units)
    (hoverflows : budget.overflows (saturatingAdd s.used units) = false) :
    (ProgramBreeding.charge budget units).run s = .error stop
      { s with used := saturatingAdd s.used units, nextPoll := saturatingAdd s.used units + pollInterval } := by
  rw [charge_eq]
  dsimp only
  rw [if_neg hfuel, if_pos hpoll, if_neg (by rw [hoverflows]; exact Bool.false_ne_true)]
  cases h with
  | cancelled h => rw [if_pos (h _)]
  | deadline h h' => rw [if_neg (by rw [h]; exact Bool.false_ne_true), if_pos (h' _)]

protected theorem charge (h : budget.AlwaysStops stop) {units : UInt64} (hunits : IsPrice units) :
    Heeds budget.fuel stop (.charge { fuel := budget.fuel } units) (.charge budget units) := by
  intro s hs
  have hused (b : Budget) : (Charge.made b units s).used = saturatingAdd s.used units := by
    rw [Charge.made_eq]
  have hcharges : (Recorded.charge budget units).charges s =
      (Recorded.charge { fuel := budget.fuel } units).charges s := by
    show [Charge.made ..] = [Charge.made ..]
    rw [Charge.made_eq, Charge.made_eq]
    unfold Budget.nextMark
    rw [overflows_eq_false hs hunits, overflows_eq_false hs hunits]
  by_cases hfuel : budget.fuel < saturatingAdd s.used units
  · have hplain := charge_of_fuel_lt { fuel := budget.fuel } hfuel
    refine .unmoved hcharges ?_ ?_ fun a t hrun => ?_
    · exact (charge_of_fuel_lt budget hfuel).trans hplain.symm
    · rintro c hc ⟨-, hle⟩
      rw [List.mem_singleton.mp hc, hused] at hle
      exact absurd hfuel (UInt64.not_lt.mpr hle)
    · cases hplain.symm.trans hrun
  · by_cases hpoll : s.nextPoll ≤ saturatingAdd s.used units
    · refine .stopped [] _ [] rfl (by simp) ⟨?_, ?_⟩ hcharges _
        (charge_eq_stop h hfuel hpoll (overflows_eq_false hs hunits))
      · rw [hused, ← hs.nextPoll]
        exact hpoll
      · rw [hused]
        exact UInt64.not_lt.mp hfuel
    · have hplain := charge_of_lt_nextPoll { fuel := budget.fuel } hfuel hpoll
      refine .unmoved hcharges ?_ ?_ fun a t hrun => ?_
      · exact (charge_of_lt_nextPoll budget hfuel hpoll).trans hplain.symm
      · rintro c hc ⟨hle, -⟩
        rw [List.mem_singleton.mp hc, hused, ← hs.nextPoll] at hle
        exact absurd hle hpoll
      · cases hplain.symm.trans hrun
        exact ⟨hs.nextPoll, hs.nextPoll ▸ UInt64.not_le.mp hpoll⟩

protected theorem bind {m m' : Recorded α} {f f' : α → Recorded β} (hm : Heeds fuel stop m m')
    (hf : ∀ a, Heeds fuel stop (f a) (f' a)) : Heeds fuel stop (m >>= f) (m' >>= f') := by
  intro s hs
  obtain ⟨hcharges, hrun, hnone, hends⟩ | ⟨before, c, after, hplain, hbefore, hc, hcharges, t, hrun⟩ := hm s hs
  · cases hfirst : m.act.run s with
    | error e t =>
      have hfirst' := hrun.trans hfirst
      refine .unmoved ?_ ?_ ?_ ?_
      · rw [Recorded.charges_bind_error hfirst, Recorded.charges_bind_error hfirst', hcharges]
      · exact (run_bind_error hfirst').trans (run_bind_error hfirst).symm
      · rw [Recorded.charges_bind_error hfirst]
        exact hnone
      · intro b u hlast
        rw [Recorded.act_bind, run_bind_error hfirst] at hlast
        cases hlast
    | ok a t =>
      have hfirst' := hrun.trans hfirst
      have hall := Recorded.charges_bind_ok (f := f) hfirst
      have hall' := Recorded.charges_bind_ok (f := f') hfirst'
      have hact : (m >>= f).act.run s = (f a).act.run t := run_bind_ok hfirst
      have hact' : (m' >>= f').act.run s = (f' a).act.run t := run_bind_ok hfirst'
      obtain ⟨hcharges', hrun', hnone', hends'⟩ |
        ⟨before, c, after, hplain, hbefore, hc, hcharges', u, hrun'⟩ := hf a t (hends a t hfirst)
      · refine .unmoved ?_ ?_ ?_ ?_
        · rw [hall, hall', hcharges, hcharges']
        · rw [hact, hact', hrun']
        · rw [hall]
          intro c hc
          exact (List.mem_append.mp hc).elim (hnone c) (hnone' c)
        · rw [hact]
          exact hends'
      · refine .stopped (m.charges s ++ before) c after ?_ ?_ hc ?_ u (hact'.trans hrun')
        · rw [hall, hplain, ← List.append_assoc]
        · intro b hb
          exact (List.mem_append.mp hb).elim (hnone b) (hbefore b)
        · rw [hall', hcharges, hcharges', ← List.append_assoc]
  · obtain ⟨later, hall⟩ := Recorded.exists_charges_bind m f s
    refine .stopped before c (after ++ later) ?_ hbefore hc ?_ t (run_bind_error hrun)
    · rw [hall, hplain, List.append_assoc, List.cons_append]
    · rw [Recorded.charges_bind_error hrun, hcharges]

/-- What is undone afterwards leaves the meter as it is. -/
theorem endIn {m m' n n' : Recorded α} {s s' : State} {f : State → State}
    (h : HeedsFrom fuel stop s' m m') (hcharges : n.charges s = m.charges s')
    (hcharges' : n'.charges s = m'.charges s') (hrun : n.act.run s = ProgramBreeding.endIn f (m.act.run s'))
    (hrun' : n'.act.run s = ProgramBreeding.endIn f (m'.act.run s'))
    (hf : ∀ t : State, t.IsEarly → (f t).IsEarly) : HeedsFrom fuel stop s n n' := by
  obtain ⟨hsame, hend, hnone, hends⟩ | ⟨before, c, after, hplain, hbefore, hc, hmade, t, hend⟩ := h
  · refine .unmoved ?_ ?_ ?_ ?_
    · rw [hcharges, hcharges', hsame]
    · rw [hrun, hrun', hend]
    · rw [hcharges]
      exact hnone
    · intro a t hok
      rw [hrun] at hok
      cases hm : m.act.run s' with
      | error e u =>
        rw [hm] at hok
        cases hok
      | ok b u =>
        rw [hm] at hok
        cases hok
        exact hf u (hends _ u hm)
  · refine .stopped before c after (hcharges.trans hplain) hbefore hc (hcharges'.trans hmade) (f t) ?_
    rw [hrun', hend]
    rfl

end Heeds

/-- Composed actions do the same up to the first look. -/
theorem heeds_congruence {budget : Budget} {stop : Stop} (h : budget.AlwaysStops stop) :
    Recorded.Congruence { fuel := budget.fuel } budget (Heeds budget.fuel stop) where
  quiet hquiet := .step fun s hs => by
    obtain ⟨heap, output, hend⟩ := hquiet.ends s
    rw [hend]
    exact hs.of_eq rfl rfl
  setVar x value := .step fun s hs =>
    hs.of_eq (s.updateScope_used _) (s.updateScope_nextPoll _)
  charge _ hunits := .charge h hunits
  bind hm hf := hm.bind hf
  shielding x m m' hm s hs :=
    Heeds.endIn (hm _ (hs.of_eq (s.updateScope_used _) (s.updateScope_nextPoll _))) rfl rfl
      (shielding_run ..) (shielding_run ..)
      fun t ht => ht.of_eq (t.updateScope_used _) (t.updateScope_nextPoll _)
  inFrame frame m m' hm s hs :=
    Heeds.endIn (hm { s with frames := frame :: s.frames } (hs.of_eq rfl rfl)) rfl rfl
      (inFrame_run ..) (inFrame_run ..) fun t ht => ht.of_eq rfl rfl

/-- A run that was cancelled before it began, or whose time was over by then, is the run that nobody interrupts
if no charge of that run is within the fuel and reaches the first mark.  Otherwise it makes the charges of that
run up to the first such charge, and there it is stopped.  So it yields no result once it has spent as much as
the first mark asks for. -/
theorem Program.run_stops_at_first_look (p : Program) (name : String) (args : List Datum) :
    (∃ plan : Plan Datum, plan.Describes fun budget => p.perform budget name args) ∧
      ∀ plan : Plan Datum, plan.Describes (fun budget => p.perform budget name args) →
        ∀ (budget : Budget) (stop : Stop), budget.AlwaysStops stop →
          ((∀ c ∈ plan.charges { fuel := budget.fuel } {}, ¬ c.Reaches budget.fuel) ∧
              p.run budget name args = p.run { fuel := budget.fuel } name args ∨
            ∃ before c after, plan.charges { fuel := budget.fuel } {} = before ++ c :: after ∧
              (∀ b ∈ before, ¬ b.Reaches budget.fuel) ∧ c.Reaches budget.fuel ∧
              plan.charges budget {} = before ++ [c] ∧ p.run budget name args = .error stop) ∧
          ∀ e, p.run budget name args = .ok e → e.used < pollInterval := by
  refine ⟨(p.perform_metered name args).exists_plan, fun plan hplan budget stop hstop => ?_⟩
  have hact (b : Budget) : (plan.record b).act = p.perform b name args := by
    rw [plan.act_record, hplan b]
  have hs : ({} : State).IsEarly := ⟨rfl, by decide⟩
  obtain ⟨hcharges, hrun, hnone, hends⟩ | ⟨before, c, after, hall, hbefore, hc, hcharges, t, hrun⟩ :=
    (heeds_congruence hstop).record rfl plan {} hs
  · rw [hact, hact] at hrun
    have hsame : p.run budget name args = p.run { fuel := budget.fuel } name args := by
      unfold run
      rw [show p.perform budget name args {} = _ from hrun]
      rfl
    refine ⟨.inl ⟨hnone, hsame⟩, fun e he => ?_⟩
    rw [hsame] at he
    unfold run at he
    split at he
    · rename_i d t hplain
      cases he
      rw [hact] at hends
      exact (hends d t hplain).used
    · cases he
  · have hstopped : p.run budget name args = .error stop := by
      rw [hact] at hrun
      unfold run
      rw [show p.perform budget name args {} = _ from hrun]
    refine ⟨.inr ⟨before, c, after, hall, hbefore, hc, hcharges, hstopped⟩, fun e he => ?_⟩
    cases hstopped.symm.trans he

/-- A range that would be too large is never asked for: its charge is the first that reaches the mark. -/
theorem run_stops_at_first_look_spanning :
    ∃ plan : Plan Datum, plan.Describes (fun budget => spanning.perform budget "f" [.int 0, .int 5000000]) ∧
      ∃ before c after, plan.charges { fuel := 9000000 } {} = before ++ c :: after ∧ c.Reaches 9000000 ∧
        plan.charges { fuel := 9000000, cancelled := fun _ => true } {} = before ++ [c] ∧
        spanning.run { fuel := 9000000 } "f" [.int 0, .int 5000000] = .error (.fault .rangeTooLarge) ∧
        spanning.run { fuel := 9000000, cancelled := fun _ => true } "f" [.int 0, .int 5000000] =
          .error .cancelled := by
  obtain ⟨⟨plan, hplan⟩, hstops⟩ := spanning.run_stops_at_first_look "f" [.int 0, .int 5000000]
  have hplain : spanning.run { fuel := 9000000 } "f" [.int 0, .int 5000000] = .error (.fault .rangeTooLarge) := rfl
  obtain ⟨⟨-, hsame⟩ | ⟨before, c, after, hall, -, hc, hcharges, hrun⟩, -⟩ :=
    hstops plan hplan { fuel := 9000000, cancelled := fun _ => true } .cancelled (.cancelled fun _ => rfl)
  · have hrun : spanning.run { fuel := 9000000, cancelled := fun _ => true } "f" [.int 0, .int 5000000] =
        .error .cancelled := rfl
    cases hrun.symm.trans (hsame.trans hplain)
  · exact ⟨plan, hplan, before, c, after, hall, hc, hcharges, hplain, hrun⟩

end ProgramBreeding

import Mathlib.Tactic.Choose
import ProgramBreeding.Proofs.Execution.Metering

/-!
# Metered runs come to an end

A run is a sequence of charges, with steps between them that spend nothing.  Every charge is one of at least
one unit, so with `n` units of fuel a run makes at most `n + 1` charges, and the loops in it end since every
round of a loop makes one.

## Main definitions

* `Plan` — the steps that an action is made of, under whatever budget.
* `Plan.run` — the action.
* `Plan.Runs` — the steps taken one after the other, with the number of charges among them.
* `Plan.Runs.unique`, `Plan.Runs.spends` — there is one way to take them, and it stays within the fuel.
* `Plan.exists_runs` — it comes to an end, and to the end that the action comes to.
* `Metered.exists_plan` — composed actions have plans.
* `Program.perform_halts` — how many charges the run of a program makes.

## Design notes

The rounds of a loop are counted in `Plan.run` and not in `Plan.Runs`, where a loop goes on for as long as its
condition holds: a loop that does not end is not related to any result.

A plan says nothing about budgets, but the action has to be what the plan makes of it under every budget.
With less fuel a run stops right after the charge that passes it, so all budgets together leave a plan no
choice of the charges.
-/

namespace ProgramBreeding

variable {α β : Type}

/-- The steps that an action is made of. -/
inductive Plan : Type → Type 1
  /-- A step that changes lists and output only. -/
  | quiet {α : Type} (m : Exec α) (h : Quiet m) : Plan α
  /-- Fuel is spent first, one unit at least. -/
  | charge {α : Type} (units : UInt64) (h : IsPrice units) (rest : Plan α) : Plan α
  | setVar {α : Type} (x : String) (value : Value) (rest : Plan α) : Plan α
  | bind {α β : Type} (first : Plan α) (rest : α → Plan β) : Plan β
  | shielding {α : Type} (x : String) (inner : Plan α) : Plan α
  | inFrame {α : Type} (frame : Scope) (inner : Plan α) : Plan α
  /-- A loop under a condition, and what is done after it. -/
  | loop {α : Type} (test : Plan Value) (body : Plan Flow) (rest : Flow → Plan α) : Plan α

namespace Plan

/-- A plan that is done. -/
def done (a : α) : Plan α := quiet (pure a) (.pure a)

/-- The action that a plan is about. -/
def run (budget : Budget) : {α : Type} → Plan α → Exec α
  | _, quiet m _ => m
  | _, charge units _ rest => do ProgramBreeding.charge budget units; rest.run budget
  | _, setVar x value rest => do ProgramBreeding.setVar x value; rest.run budget
  | _, bind first rest => first.run budget >>= fun a => (rest a).run budget
  | _, shielding x inner => ProgramBreeding.shielding x (inner.run budget)
  | _, inFrame frame inner => ProgramBreeding.inFrame frame (inner.run budget)
  | _, loop test body rest =>
    whileRounds budget (test.run budget) (body.run budget) (budget.fuel.toNat + 1) >>= fun flow =>
      (rest flow).run budget

/-- An action that is what a plan makes of every budget. -/
def Describes (plan : Plan α) (m : Budget → Exec α) : Prop := ∀ budget, plan.run budget = m budget

/-- What is done after the body of a loop: another round, or what comes after the loop. -/
def afterBody (again : Plan α) (rest : Flow → Plan α) : Flow → Plan α
  | .brk => rest .next
  | .ret value => rest (.ret value)
  | .next | .cont => again

/-- A round of a loop. -/
def round (test : Plan Value) (body : Plan Flow) (again : Plan α) (rest : Flow → Plan α) : Plan α :=
  charge 1 isPrice_one <| bind test fun v => bind (quiet (truth v) (.truth v)) fun wanted =>
    if wanted then bind body (afterBody again rest) else rest .next

/-- The steps of a plan, taken from a state: how many charges are made, and how it ends. -/
inductive Runs (budget : Budget) :
    {α : Type} → Plan α → State → Nat → EStateM.Result Stop State α → Prop
  | quiet {α : Type} (m : Exec α) (h : Quiet m) (s : State) : Runs budget (.quiet m h) s 0 (m.run s)
  | charge {α : Type} {units : UInt64} {h : IsPrice units} {rest : Plan α} {s t : State} {k : Nat}
    {r : EStateM.Result Stop State α} (hcharge : (ProgramBreeding.charge budget units).run s = .ok () t)
    (hrest : Runs budget rest t k r) : Runs budget (.charge units h rest) s (k + 1) r
  | refused {α : Type} {units : UInt64} {h : IsPrice units} {rest : Plan α} {s t : State} {e : Stop}
    (hcharge : (ProgramBreeding.charge budget units).run s = .error e t) :
    Runs budget (.charge units h rest) s 1 (.error e t)
  | setVar {α : Type} {x : String} {value : Value} {rest : Plan α} {s : State} {k : Nat}
    {r : EStateM.Result Stop State α} (h : Runs budget rest (s.updateScope (Scope.insert x value)) k r) :
    Runs budget (.setVar x value rest) s k r
  | next {α β : Type} {first : Plan α} {rest : α → Plan β} {s t : State} {k l : Nat} {a : α}
    {r : EStateM.Result Stop State β} (hfirst : Runs budget first s k (.ok a t))
    (hrest : Runs budget (rest a) t l r) : Runs budget (.bind first rest) s (k + l) r
  | stop {α β : Type} {first : Plan α} {rest : α → Plan β} {s t : State} {k : Nat} {e : Stop}
    (hfirst : Runs budget first s k (.error e t)) : Runs budget (.bind first rest) s k (.error e t)
  | shielding {α : Type} {x : String} {inner : Plan α} {s : State} {k : Nat}
    {r : EStateM.Result Stop State α}
    (h : Runs budget inner (s.updateScope fun scope => scope.erase x) k r) :
    Runs budget (.shielding x inner) s k (endIn (fun t => t.restore x (s.scope.get? x)) r)
  | inFrame {α : Type} {frame : Scope} {inner : Plan α} {s : State} {k : Nat}
    {r : EStateM.Result Stop State α} (h : Runs budget inner { s with frames := frame :: s.frames } k r) :
    Runs budget (.inFrame frame inner) s k (endIn State.leaveFrame r)
  | loop {α : Type} {test : Plan Value} {body : Plan Flow} {rest : Flow → Plan α} {s : State} {k : Nat}
    {r : EStateM.Result Stop State α}
    (h : Runs budget (round test body (.loop test body rest) rest) s k r) :
    Runs budget (.loop test body rest) s k r

/-- There is one way to take the steps of a plan. -/
theorem Runs.unique {budget : Budget} {plan : Plan α} {s : State} {k k' : Nat}
    {r r' : EStateM.Result Stop State α} (h : plan.Runs budget s k r) (h' : plan.Runs budget s k' r') :
    k' = k ∧ r' = r := by
  induction h generalizing k' with
  | quiet =>
    cases h'
    exact ⟨rfl, rfl⟩
  | charge hcharge _ ih =>
    cases h' with
    | charge hcharge' hrest =>
      cases hcharge.symm.trans hcharge'
      obtain ⟨rfl, rfl⟩ := ih hrest
      exact ⟨rfl, rfl⟩
    | refused hcharge' => cases hcharge.symm.trans hcharge'
  | refused hcharge =>
    cases h' with
    | charge hcharge' _ => cases hcharge.symm.trans hcharge'
    | refused hcharge' =>
      cases hcharge.symm.trans hcharge'
      exact ⟨rfl, rfl⟩
  | setVar _ ih =>
    cases h' with
    | setVar h' => exact ih h'
  | next _ _ ihfirst ihrest =>
    cases h' with
    | next hfirst hrest =>
      obtain ⟨rfl, hend⟩ := ihfirst hfirst
      cases hend
      obtain ⟨rfl, rfl⟩ := ihrest hrest
      exact ⟨rfl, rfl⟩
    | stop hfirst => cases (ihfirst hfirst).2
  | stop _ ihfirst =>
    cases h' with
    | next hfirst _ => cases (ihfirst hfirst).2
    | stop hfirst =>
      obtain ⟨rfl, hend⟩ := ihfirst hfirst
      cases hend
      exact ⟨rfl, rfl⟩
  | shielding _ ih =>
    cases h' with
    | shielding h' =>
      obtain ⟨rfl, rfl⟩ := ih h'
      exact ⟨rfl, rfl⟩
  | inFrame _ ih =>
    cases h' with
    | inFrame h' =>
      obtain ⟨rfl, rfl⟩ := ih h'
      exact ⟨rfl, rfl⟩
  | loop _ ih =>
    cases h' with
    | loop h' => exact ih h'

/-! ### Charges and fuel -/

/-- The fuel at the end of something that made a number of charges: every one of them spent a unit, and only
the last one may have passed the budget. -/
def Spent (fuel : UInt64) (s : State) (k : Nat) : EStateM.Result Stop State α → Prop
  | .ok _ t => s.used.toNat + k ≤ t.used.toNat ∧ t.used ≤ fuel
  | .error _ _ => s.used.toNat + k ≤ fuel.toNat + 1

section

variable {budget : Budget} {s : State} {k : Nat}

theorem spent_of_used_eq {r : EStateM.Result Stop State α} (h : (endState r).used = s.used)
    (hs : s.used ≤ budget.fuel) : Spent budget.fuel s 0 r := by
  cases r with
  | ok a t =>
    replace h : t.used = s.used := h
    exact ⟨h ▸ Nat.le_refl _, h ▸ hs⟩
  | error e t => exact Nat.le_succ_of_le (UInt64.le_iff_toNat_le.mp hs)

/-- What is undone afterwards leaves the fuel spent. -/
theorem Spent.endIn {fuel : UInt64} {s' : State} {f : State → State} {r : EStateM.Result Stop State α}
    (h : Spent fuel s' k r) (hs : s'.used = s.used) (hf : ∀ t, (f t).used = t.used) :
    Spent fuel s k (endIn f r) := by
  cases r with
  | ok a t => exact ⟨by rw [hf, ← hs]; exact h.1, by rw [hf]; exact h.2⟩
  | error e t =>
    show s.used.toNat + k ≤ _
    exact hs ▸ h

/-- A charge is only passed within the budget. -/
theorem charge_eq_ok {units : UInt64} {t : State} (h : (ProgramBreeding.charge budget units).run s = .ok () t) :
    t.used = saturatingAdd s.used units ∧ saturatingAdd s.used units ≤ budget.fuel := by
  obtain ⟨nextPoll, hend⟩ := endState_charge budget units s
  rw [h] at hend
  refine ⟨congrArg State.used hend, UInt64.not_lt.mp fun hfuel => ?_⟩
  have hstop : (ProgramBreeding.charge budget units).run s =
      .error (.outOfFuel budget.fuel) { s with used := saturatingAdd s.used units } := by
    simp [ProgramBreeding.charge, hfuel]
  rw [hstop] at h
  cases h

/-- A charge within the budget takes a unit at least. -/
theorem used_lt_of_charge_eq_ok (hroom : budget.fuel.toNat + 1 < UInt64.size) {units : UInt64}
    (hunits : IsPrice units) {t : State} (h : (ProgramBreeding.charge budget units).run s = .ok () t) :
    s.used.toNat < t.used.toNat := by
  obtain ⟨hused, hfuel⟩ := charge_eq_ok h
  have hpos : units.toNat ≠ 0 := fun h => hunits.ne_zero (UInt64.toNat.inj h)
  have hsum := toNat_saturatingAdd s.used units
  -- The sum is not the greatest word, since it is within the fuel.
  rw [UInt64.le_iff_toNat_le] at hfuel
  rw [hused]
  omega

/-- By induction on the steps: no run passes its fuel by more than the last charge. -/
theorem Runs.spends (hroom : budget.fuel.toNat + 1 < UInt64.size) {plan : Plan α}
    {r : EStateM.Result Stop State α} (h : plan.Runs budget s k r) (hs : s.used ≤ budget.fuel) :
    Spent budget.fuel s k r := by
  induction h with
  | quiet m h s =>
    obtain ⟨heap, output, hend⟩ := h.ends s
    exact spent_of_used_eq (by rw [hend]) hs
  | @charge _ units hunits _ s t k r hcharge _ ih =>
    obtain ⟨hused, hfuel⟩ := charge_eq_ok hcharge
    have hlt := used_lt_of_charge_eq_ok hroom hunits hcharge
    have hrest := ih (hused ▸ hfuel)
    cases r with
    | ok b u => exact ⟨by have := hrest.1; omega, hrest.2⟩
    | error e u => exact Nat.le_trans (by omega) hrest
  | refused => exact Nat.succ_le_succ (UInt64.le_iff_toNat_le.mp hs)
  | @setVar _ x value _ s _ r _ ih =>
    have hused := s.updateScope_used (Scope.insert x value)
    have hrest := ih (hused ▸ hs)
    cases r with
    | ok b u => exact ⟨hused ▸ hrest.1, hrest.2⟩
    | error e u => exact Nat.le_trans (Nat.le_of_eq (by rw [hused])) hrest
  | @next _ _ _ _ s t k l a r _ _ ihfirst ihrest =>
    obtain ⟨hused, hfuel⟩ := ihfirst hs
    have hrest := ihrest hfuel
    cases r with
    | ok b u => exact ⟨by have := hrest.1; omega, hrest.2⟩
    | error e u => exact Nat.le_trans (by omega) hrest
  | stop _ ihfirst => exact ihfirst hs
  | @shielding _ x _ s _ _ _ ih =>
    have hused := s.updateScope_used fun scope => scope.erase x
    exact (ih (hused ▸ hs)).endIn hused fun t => by rw [State.restore, State.updateScope_used]
  | inFrame _ ih => exact (ih hs).endIn rfl fun _ => rfl
  | loop _ ih => exact ih hs

/-! ### Runs come to an end -/

theorem exists_runs_charge {units : UInt64} {h : IsPrice units} {rest : Plan α} {m : Exec α}
    (hrest : ∀ t, (ProgramBreeding.charge budget units).run s = .ok () t → ∃ k, rest.Runs budget t k (m.run t)) :
    ∃ k, (charge units h rest).Runs budget s k
      ((do ProgramBreeding.charge budget units; m : Exec α).run s) := by
  cases hrun : (ProgramBreeding.charge budget units).run s with
  | ok a t =>
    obtain ⟨k, hrest⟩ := hrest t hrun
    rw [run_bind_ok hrun]
    exact ⟨k + 1, .charge hrun hrest⟩
  | error e t =>
    rw [run_bind_error hrun]
    exact ⟨1, .refused hrun⟩

theorem exists_runs_bind {first : Plan α} {rest : α → Plan β} {m : Exec α} {f : α → Exec β}
    (hfirst : first.Runs budget s k (m.run s))
    (hrest : ∀ a t, first.Runs budget s k (.ok a t) → ∃ l, (rest a).Runs budget t l ((f a).run t)) :
    ∃ l, (bind first rest).Runs budget s l ((m >>= f).run s) := by
  cases hrun : m.run s with
  | ok a t =>
    rw [hrun] at hfirst
    obtain ⟨l, hrest⟩ := hrest a t hfirst
    rw [run_bind_ok hrun]
    exact ⟨k + l, .next hfirst hrest⟩
  | error e t =>
    rw [hrun] at hfirst
    rw [run_bind_error hrun]
    exact ⟨k, .stop hfirst⟩

/-- A round of a loop and what comes after it. -/
theorem whileRounds_bind {test : Exec Value} {body : Exec Flow} (count : Nat) (f : Flow → Exec α) :
    (whileRounds budget test body (count + 1) >>= f) = (do
      ProgramBreeding.charge budget 1
      let v ← test
      let wanted ← truth v
      if wanted then
        let flow ← body
        match flow with
        | .brk => f .next
        | .ret value => f (.ret value)
        | .next | .cont => whileRounds budget test body count >>= f
      else f .next) := by
  simp only [whileRounds, bind_assoc]
  congr; funext _; congr; funext v; congr; funext wanted
  cases wanted with
  | false => simp
  | true =>
    simp only [if_true, bind_assoc]
    congr; funext flow
    cases flow <;> simp

/-- By induction on the rounds that the action may still make: they are more than the units of fuel that are
left, and every round spends one of these. -/
theorem exists_runs_loop (hroom : budget.fuel.toNat + 1 < UInt64.size) {test : Plan Value} {body : Plan Flow}
    {rest : Flow → Plan α}
    (htest : ∀ s : State, s.used ≤ budget.fuel → ∃ k, test.Runs budget s k ((test.run budget).run s))
    (hbody : ∀ s : State, s.used ≤ budget.fuel → ∃ k, body.Runs budget s k ((body.run budget).run s))
    (hrest : ∀ flow (s : State), s.used ≤ budget.fuel →
      ∃ k, (rest flow).Runs budget s k (((rest flow).run budget).run s))
    (count : Nat) : ∀ s : State, s.used ≤ budget.fuel → budget.fuel.toNat < s.used.toNat + count →
      ∃ k, (loop test body rest).Runs budget s k
        ((whileRounds budget (test.run budget) (body.run budget) count >>= fun flow =>
          (rest flow).run budget).run s) := by
  induction count with
  | zero =>
    intro s hs hcount
    rw [UInt64.le_iff_toNat_le] at hs
    omega
  | succ count ih =>
    intro s hs hcount
    rw [whileRounds_bind]
    suffices hround : ∃ k, (round test body (loop test body rest) rest).Runs budget s k _ from
      hround.imp fun _ => .loop
    refine exists_runs_charge fun t hcharge => ?_
    obtain ⟨hused, hfuel⟩ := charge_eq_ok hcharge
    have hlt := used_lt_of_charge_eq_ok hroom isPrice_one hcharge
    have ht : t.used ≤ budget.fuel := hused ▸ hfuel
    obtain ⟨k, hruns⟩ := htest t ht
    refine exists_runs_bind hruns fun v u hruns => ?_
    obtain ⟨hspent, hu⟩ := hruns.spends hroom ht
    refine exists_runs_bind (.quiet _ (.truth v) u) fun wanted u' hruns => ?_
    obtain ⟨hspent', hu'⟩ := hruns.spends hroom hu
    cases wanted with
    | false => exact hrest .next u' hu'
    | true =>
      obtain ⟨l, hruns⟩ := hbody u' hu'
      refine exists_runs_bind hruns fun flow w hruns => ?_
      obtain ⟨hspent'', hw⟩ := hruns.spends hroom hu'
      have hagain := ih w hw (by omega)
      cases flow with
      | next => exact hagain
      | cont => exact hagain
      | brk => exact hrest .next w hw
      | ret value => exact hrest (.ret value) w hw

/-- By induction on the plan: from every state within the fuel, the steps of a plan come to the end that the
action comes to. -/
theorem exists_runs (hroom : budget.fuel.toNat + 1 < UInt64.size) (plan : Plan α) :
    ∀ s : State, s.used ≤ budget.fuel → ∃ k, plan.Runs budget s k ((plan.run budget).run s) := by
  induction plan with
  | quiet m h => exact fun s _ => ⟨0, .quiet m h s⟩
  | charge units h rest ih =>
    intro s hs
    refine exists_runs_charge fun t hcharge => ih t ?_
    obtain ⟨hused, hfuel⟩ := charge_eq_ok hcharge
    exact hused ▸ hfuel
  | setVar x value rest ih =>
    intro s hs
    rw [← s.updateScope_used (Scope.insert x value)] at hs
    obtain ⟨k, hrest⟩ := ih _ hs
    exact ⟨k, .setVar hrest⟩
  | bind first rest ihfirst ihrest =>
    intro s hs
    obtain ⟨k, hfirst⟩ := ihfirst s hs
    exact exists_runs_bind hfirst fun a t hruns => ihrest a t (hruns.spends hroom hs).2
  | shielding x inner ih =>
    intro s hs
    rw [← s.updateScope_used fun scope => scope.erase x] at hs
    obtain ⟨k, hinner⟩ := ih _ hs
    rw [run, shielding_run]
    exact ⟨k, .shielding hinner⟩
  | inFrame frame inner ih =>
    intro s hs
    obtain ⟨k, hinner⟩ := ih { s with frames := frame :: s.frames } hs
    rw [run, inFrame_run]
    exact ⟨k, .inFrame hinner⟩
  | loop test body rest ihtest ihbody ihrest =>
    exact fun s hs => exists_runs_loop hroom ihtest ihbody ihrest _ s hs (by omega)

end

end Plan

/-! ### Programs -/

/-- By induction on how the action is composed. -/
theorem Metered.exists_plan {names : String → Prop} {m : Budget → Exec α} (h : Metered names m) :
    ∃ plan : Plan α, plan.Describes m := by
  induction h with
  | quiet h => exact ⟨.quiet _ h, fun _ => rfl⟩
  | charge units h => exact ⟨.charge units h (.done ()), fun _ => bind_pure_unit⟩
  | bind _ _ ihm ihf =>
    obtain ⟨first, hfirst⟩ := ihm
    choose rest hrest using ihf
    refine ⟨.bind first rest, fun budget => ?_⟩
    rw [Plan.run, hfirst budget]
    exact congrArg _ (funext fun a => hrest a budget)
  | @setVar _ x value _ => exact ⟨.setVar x value (.done ()), fun _ => bind_pure_unit⟩
  | shielding _ ih =>
    obtain ⟨inner, hinner⟩ := ih
    exact ⟨.shielding _ inner, fun budget => by rw [Plan.run, hinner budget]⟩
  | inFrame frame _ ih =>
    obtain ⟨inner, hinner⟩ := ih
    exact ⟨.inFrame frame inner, fun budget => by rw [Plan.run, hinner budget]⟩
  | loop _ _ ihtest ihbody =>
    obtain ⟨test, htest⟩ := ihtest
    obtain ⟨body, hbody⟩ := ihbody
    refine ⟨.loop test body .done, fun budget => ?_⟩
    rw [Plan.run, htest budget, hbody budget]
    exact bind_pure _

/-- Loading a program and calling one of its functions is a plan of steps, and whatever plan it is, its steps
come to an end under every budget, however many rounds its loops make and whatever its functions call.  They
are the steps of the run, at most one more of them is a charge than there are units of fuel, and a run that
yields a result has spent no more than its fuel. -/
theorem Program.perform_halts (p : Program) (name : String) (args : List Datum) :
    (∃ plan : Plan Datum, plan.Describes fun budget => p.perform budget name args) ∧
      ∀ plan : Plan Datum, plan.Describes (fun budget => p.perform budget name args) →
        ∀ budget : Budget, budget.fuel.toNat + 1 < UInt64.size →
          ∃ charges, plan.Runs budget {} charges ((p.perform budget name args).run {}) ∧
            charges ≤ budget.fuel.toNat + 1 ∧
            ∀ result s, (p.perform budget name args).run {} = .ok result s → s.used ≤ budget.fuel := by
  refine ⟨(p.perform_metered name args).exists_plan, fun plan hplan budget hroom => ?_⟩
  have hs : ({} : State).used ≤ budget.fuel := UInt64.le_iff_toNat_le.mpr (Nat.zero_le _)
  obtain ⟨charges, hruns⟩ := plan.exists_runs hroom {} hs
  rw [hplan budget] at hruns
  have hspent := hruns.spends hroom hs
  refine ⟨charges, hruns, ?_, fun result s hok => ?_⟩
  · cases hrun : (p.perform budget name args).run {} with
    | ok result s =>
      rw [hrun] at hspent
      obtain ⟨hcharges, hused⟩ := hspent
      rw [UInt64.le_iff_toNat_le] at hused
      exact Nat.le_succ_of_le (Nat.le_trans (Nat.le_trans (Nat.le_add_left ..) hcharges) hused)
    | error stop s =>
      rw [hrun] at hspent
      exact Nat.le_trans (Nat.le_add_left ..) hspent
  · rw [hok] at hspent
    exact hspent.2

/-- A program with a loop that never ends: `def f(n):` with `while True: pass`. -/
def endless : Program :=
  .ofTree ⟨0, 0, 5, [.functionDef 1 "f" ["n"] [.whileLoop 2 (.constant 3 (.bool true)) [.pass 4]]]⟩

theorem perform_halts_endless : ∃ plan : Plan Datum,
    plan.Describes (fun budget => endless.perform budget "f" [.int 0]) ∧
      ∃ charges s, plan.Runs { fuel := 20 } {} charges (.error (.outOfFuel 20) s) ∧ charges ≤ 21 := by
  obtain ⟨⟨plan, hplan⟩, hhalts⟩ := endless.perform_halts "f" [.int 0]
  obtain ⟨charges, hruns, hcharges, -⟩ := hhalts plan hplan { fuel := 20 } (by decide)
  have hrun : ∃ s, (endless.perform { fuel := 20 } "f" [.int 0]).run {} = .error (.outOfFuel 20) s := ⟨_, rfl⟩
  obtain ⟨s, hrun⟩ := hrun
  rw [hrun] at hruns
  exact ⟨plan, hplan, charges, s, hruns, hcharges⟩

end ProgramBreeding

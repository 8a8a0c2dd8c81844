import ProgramBreeding.Proofs.Execution.Halting

/-!
# The charges of a run

Every run makes a sequence of charges.  This module writes them down, so that it can be said when in a run
something happens.

## Main definitions

* `Charge` — a charge that was made, with what the meter shows afterwards.
* `Recorded` — an action, and the charges that it makes from every state.
* `Plan.record`, `Plan.charges` — the charges of a plan of steps.
* `Plan.act_record` — what is recorded is the action that the plan is about.
* `Recorded.Congruence` — relations that hold of steps and carry over to what is composed of them.
* `Recorded.Congruence.record` — they hold of all plans.

## Design notes

A plan is the same under all budgets, so a relation can compare what it does under one budget with what it
does under another.  The two may differ in everything but the fuel, by which the rounds of loops are counted.
-/

namespace ProgramBreeding

variable {α β : Type}

/-- A charge that was made: the units it asked for, the fuel spent after it, and the mark of the next look. -/
structure Charge where
  units : UInt64
  used : UInt64
  nextPoll : UInt64

/-- The charge of some units in a state. -/
def Charge.made (budget : Budget) (units : UInt64) (s : State) : Charge :=
  let t := endState ((charge budget units).run s)
  ⟨units, t.used, t.nextPoll⟩

section

variable (budget : Budget) {units : UInt64} {s : State}

/-- A charge that passes the fuel. -/
theorem charge_of_fuel_lt (h : budget.fuel < saturatingAdd s.used units) :
    (charge budget units).run s =
      .error (.outOfFuel budget.fuel) { s with used := saturatingAdd s.used units } := by
  rw [charge_eq]
  exact if_pos h

/-- A charge after which it is too early for a look. -/
theorem charge_of_lt_nextPoll (h : ¬ budget.fuel < saturatingAdd s.used units)
    (hpoll : ¬ s.nextPoll ≤ saturatingAdd s.used units) :
    (charge budget units).run s = .ok () { s with used := saturatingAdd s.used units } := by
  rw [charge_eq]
  exact (if_neg h).trans (if_neg hpoll)

/-- A charge with which the sum that sets the next mark leaves the words. -/
theorem charge_of_overflows (h : ¬ budget.fuel < saturatingAdd s.used units)
    (hpoll : s.nextPoll ≤ saturatingAdd s.used units)
    (hoverflows : budget.overflows (saturatingAdd s.used units) = true) :
    (charge budget units).run s = .error .overflow { s with used := saturatingAdd s.used units } := by
  rw [charge_eq]
  exact (if_neg h).trans ((if_pos hpoll).trans (if_pos hoverflows))

/-- The mark of the next look after a charge: it stays where it is if the run is stopped before the look. -/
def Budget.nextMark (budget : Budget) (s : State) (used : UInt64) : UInt64 :=
  if budget.fuel < used then s.nextPoll
  else if budget.overflows used then s.nextPoll
  else s.pollAfter used

/-- What the meter shows after a charge. -/
theorem endState_charge_eq : endState ((charge budget units).run s) =
    let used := saturatingAdd s.used units
    { s with used, nextPoll := budget.nextMark s used } := by
  rw [charge_eq]
  unfold Budget.nextMark State.pollAfter
  dsimp only
  by_cases hfuel : budget.fuel < saturatingAdd s.used units
  · rw [if_pos hfuel, if_pos hfuel]
    rfl
  · rw [if_neg hfuel, if_neg hfuel]
    by_cases hpoll : s.nextPoll ≤ saturatingAdd s.used units
    · rw [if_pos hpoll, if_pos hpoll]
      split
      · rfl
      · -- looking moves the mark, whatever it finds
        split
        · rfl
        · split <;> rfl
    · rw [if_neg hpoll, if_neg hpoll, ite_self]
      rfl

variable (units s) in
theorem Charge.made_eq : Charge.made budget units s =
    ⟨units, saturatingAdd s.used units, budget.nextMark s (saturatingAdd s.used units)⟩ := by
  unfold made
  rw [endState_charge_eq]

end

theorem State.updateScope_nextPoll (f : Scope → Scope) (s : State) :
    (s.updateScope f).nextPoll = s.nextPoll := by
  unfold updateScope
  split <;> rfl

/-! ### Recorded actions -/

/-- An action, and the charges that it makes from every state, in their order. -/
structure Recorded (α : Type) where
  act : Exec α
  charges : State → List Charge

namespace Recorded

/-- A step that makes no charge. -/
def step (m : Exec α) : Recorded α := ⟨m, fun _ => []⟩

def charge (budget : Budget) (units : UInt64) : Recorded Unit :=
  ⟨ProgramBreeding.charge budget units, fun s => [.made budget units s]⟩

/-- What is done after an action makes its charges if the action succeeds. -/
def bind (m : Recorded α) (f : α → Recorded β) : Recorded β where
  act := m.act >>= fun a => (f a).act
  charges s := m.charges s ++
    match m.act.run s with
    | .ok a t => (f a).charges t
    | .error _ _ => []

instance : Monad Recorded where
  pure a := step (pure a)
  bind := bind

def shielding (x : String) (m : Recorded α) : Recorded α :=
  ⟨ProgramBreeding.shielding x m.act, fun s => m.charges (s.updateScope fun scope => scope.erase x)⟩

def inFrame (frame : Scope) (m : Recorded α) : Recorded α :=
  ⟨ProgramBreeding.inFrame frame m.act, fun s => m.charges { s with frames := frame :: s.frames }⟩

/-- The rounds of a loop under a condition, at most `count` of them. -/
def whileRounds (budget : Budget) (test : Recorded Value) (body : Recorded Flow) : Nat → Recorded Flow
  | 0 => step (throw (.outOfFuel budget.fuel))
  | count + 1 => do
    charge budget 1
    let v ← test
    let wanted ← step (truth v)
    if wanted then
      match ← body with
      | .brk => return .next
      | .ret value => return .ret value
      | .next | .cont => whileRounds budget test body count
    else
      return .next

@[simp] theorem act_bind (m : Recorded α) (f : α → Recorded β) :
    (m >>= f).act = m.act >>= fun a => (f a).act := rfl

/-- What is done next adds to the charges. -/
theorem exists_charges_bind (m : Recorded α) (f : α → Recorded β) (s : State) :
    ∃ later, (m >>= f).charges s = m.charges s ++ later := ⟨_, rfl⟩

theorem charges_bind_ok {m : Recorded α} {f : α → Recorded β} {a : α} {s t : State}
    (h : m.act.run s = .ok a t) : (m >>= f).charges s = m.charges s ++ (f a).charges t := by
  show m.charges s ++ _ = _
  rw [h]

theorem charges_bind_error {m : Recorded α} {f : α → Recorded β} {e : Stop} {s t : State}
    (h : m.act.run s = .error e t) : (m >>= f).charges s = m.charges s := by
  show m.charges s ++ _ = _
  rw [h, List.append_nil]

theorem act_whileRounds (budget : Budget) (test : Recorded Value) (body : Recorded Flow) (count : Nat) :
    (whileRounds budget test body count).act =
      ProgramBreeding.whileRounds budget test.act body.act count := by
  induction count with
  | zero => rfl
  | succ count ih =>
    unfold whileRounds ProgramBreeding.whileRounds
    simp only [act_bind]
    congr; funext _; congr; funext v; congr; funext wanted
    cases wanted with
    | false => rfl
    | true =>
      simp only [if_true, act_bind]
      congr; funext flow
      cases flow with
      | next => exact ih
      | cont => exact ih
      | _ => rfl

end Recorded

/-! ### Plans -/

namespace Plan

/-- What a plan makes of a budget, with its charges. -/
def record (budget : Budget) : {α : Type} → Plan α → Recorded α
  | _, quiet m _ => .step m
  | _, charge units _ rest => do Recorded.charge budget units; rest.record budget
  | _, setVar x value rest => do Recorded.step (ProgramBreeding.setVar x value); rest.record budget
  | _, bind first rest => do (rest (← first.record budget)).record budget
  | _, shielding x inner => .shielding x (inner.record budget)
  | _, inFrame frame inner => .inFrame frame (inner.record budget)
  | _, loop test body rest => do
    let flow ← Recorded.whileRounds budget (test.record budget) (body.record budget) (budget.fuel.toNat + 1)
    (rest flow).record budget

/-- The charges that the steps of a plan make from a state, in their order. -/
def charges (budget : Budget) (plan : Plan α) (s : State) : List Charge := (plan.record budget).charges s

/-- What is recorded is the action that the plan is about. -/
theorem act_record (budget : Budget) (plan : Plan α) : (plan.record budget).act = plan.run budget := by
  induction plan with
  | quiet m h => rfl
  | charge units h rest ih =>
    show (ProgramBreeding.charge budget units >>= fun _ => (rest.record budget).act) = _
    rw [ih]
    rfl
  | setVar x value rest ih =>
    show (ProgramBreeding.setVar x value >>= fun _ => (rest.record budget).act) = _
    rw [ih]
    rfl
  | bind first rest ihfirst ihrest =>
    show (first.record budget).act >>= (fun a => ((rest a).record budget).act) = _
    rw [ihfirst, funext ihrest]
    rfl
  | shielding x inner ih => exact congrArg (ProgramBreeding.shielding x) ih
  | inFrame frame inner ih => exact congrArg (ProgramBreeding.inFrame frame) ih
  | loop test body rest ihtest ihbody ihrest =>
    show (Recorded.whileRounds budget _ _ _).act >>= (fun flow => ((rest flow).record budget).act) = _
    rw [Recorded.act_whileRounds, ihtest, ihbody, funext ihrest]
    rfl

end Plan

/-! ### What holds of all plans -/

namespace Recorded

/-- A relation of what actions do under two budgets that holds of steps and carries over to what is composed
of them. -/
structure Congruence (budget budget' : Budget) (R : ∀ {α : Type}, Recorded α → Recorded α → Prop) :
    Prop where
  quiet : ∀ {α : Type} {m : Exec α}, Quiet m → R (step m) (step m)
  setVar : ∀ (x : String) (value : Value),
    R (step (ProgramBreeding.setVar x value)) (step (ProgramBreeding.setVar x value))
  charge : ∀ units : UInt64, IsPrice units → R (charge budget units) (charge budget' units)
  bind : ∀ {α β : Type} {m m' : Recorded α} {f f' : α → Recorded β},
    R m m' → (∀ a, R (f a) (f' a)) → R (m >>= f) (m' >>= f')
  shielding : ∀ {α : Type} (x : String) {m m' : Recorded α}, R m m' → R (shielding x m) (shielding x m')
  inFrame : ∀ {α : Type} (frame : Scope) {m m' : Recorded α}, R m m' → R (inFrame frame m) (inFrame frame m')

namespace Congruence

variable {budget budget' : Budget} {R : ∀ {α : Type}, Recorded α → Recorded α → Prop}

/-- By induction on the rounds that may still be made. -/
theorem whileRounds (hR : Congruence budget budget' R) (hfuel : budget'.fuel = budget.fuel)
    {test test' : Recorded Value} {body body' : Recorded Flow} (htest : R test test') (hbody : R body body')
    (count : Nat) : R (whileRounds budget test body count) (whileRounds budget' test' body' count) := by
  induction count with
  | zero =>
    unfold Recorded.whileRounds
    rw [hfuel]
    exact hR.quiet (.throw (by simp))
  | succ count ih =>
    unfold Recorded.whileRounds
    apply hR.bind (hR.charge 1 isPrice_one)
    intro _
    apply hR.bind htest
    intro v
    apply hR.bind (hR.quiet (.truth v))
    intro wanted
    cases wanted with
    | false => exact hR.quiet (.pure _)
    | true =>
      apply hR.bind hbody
      intro flow
      cases flow with
      | next => exact ih
      | cont => exact ih
      | _ => exact hR.quiet (.pure _)

/-- By induction on the plan. -/
theorem record (hR : Congruence budget budget' R) (hfuel : budget'.fuel = budget.fuel) (plan : Plan α) :
    R (plan.record budget) (plan.record budget') := by
  induction plan with
  | quiet m h => exact hR.quiet h
  | charge units h rest ih => exact hR.bind (hR.charge units h) fun _ => ih
  | setVar x value rest ih => exact hR.bind (hR.setVar x value) fun _ => ih
  | bind first rest ihfirst ihrest => exact hR.bind ihfirst ihrest
  | shielding x inner ih => exact hR.shielding x ih
  | inFrame frame inner ih => exact hR.inFrame frame ih
  | loop test body rest ihtest ihbody ihrest =>
    unfold Plan.record
    rw [hfuel]
    exact hR.bind (hR.whileRounds hfuel ihtest ihbody _) ihrest

end Congruence

end Recorded

/-- A program whose charges are as large as its arguments ask for: `def f(a, b):` with `return range(a, b)`. -/
def spanning : Program :=
  .ofTree ⟨0, 0, 7, [.functionDef 1 "f" ["a", "b"]
    [.ret 2 (some (.call 3 (.name 4 "range") [.name 5 "a", .name 6 "b"]))]]⟩

end ProgramBreeding

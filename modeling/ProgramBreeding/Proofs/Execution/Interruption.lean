import ProgramBreeding.Proofs.Execution.Fuel

/-!
# Runs that are interrupted

A run may be cancelled, or its time may be over, whenever it looks.  Until then it does what a run does
that nobody interrupts.  Sums are not checked here.

## Main definitions

* `Budget.Interrupts` — the stops that come from outside.
* `Outlasts` — how an action ends under some fuel, and under a budget that allows no less.
* `Metered.outlasts` — composed actions do what they do until they are interrupted.
* `Program.run_again` — a run that has come to its end can be made again.

## Design notes

When a run looks depends on the fuel it has spent and not on the fuel it was given, so the marks of the
next look are the same in both runs.  The run that nobody interrupts looks as often and finds nothing.
-/

namespace ProgramBreeding

/-- The stops that come from outside, each with a look that finds its reason. -/
inductive Budget.Interrupts (budget : Budget) : Stop → Prop
  | cancelled (used : UInt64) (h : budget.cancelled used = true) : Interrupts budget .cancelled
  | deadline (used : UInt64) (h : budget.expired used = true) : Interrupts budget .deadline

/-- Whether a run was cut off from outside. -/
def Stop.isInterruption : Stop → Bool
  | .cancelled | .deadline => true
  | _ => false

theorem Budget.Interrupts.isInterruption {budget : Budget} {stop : Stop} (h : budget.Interrupts stop) :
    stop.isInterruption = true := by
  cases h <;> rfl

/-- How an action ends under some fuel, and under a budget that allows no less.  Either nothing differs,
or the fuel does not last for the first, or the second is interrupted. -/
inductive Outlasts {α : Type} (fuel : UInt64) (budget : Budget) :
    EStateM.Result Stop State α → EStateM.Result Stop State α → Prop
  | same (r : EStateM.Result Stop State α) : Outlasts fuel budget r r
  | starved (s : State) (r' : EStateM.Result Stop State α) :
      Outlasts fuel budget (.error (.outOfFuel fuel) s) r'
  | interrupted (r : EStateM.Result Stop State α) {stop : Stop} (s : State) (h : budget.Interrupts stop) :
      Outlasts fuel budget r (.error stop s)

variable {α β : Type} {fuel : UInt64} {budget : Budget}

namespace Outlasts

protected theorem endIn {r r' : EStateM.Result Stop State α} (f : State → State)
    (h : Outlasts fuel budget r r') : Outlasts fuel budget (endIn f r) (endIn f r') := by
  cases h with
  | same r => exact .same _
  | starved s r' => exact .starved (f s) _
  | interrupted r s hstop => exact .interrupted _ (f s) hstop

/-- A step that is made in both runs, and what is done next. -/
protected theorem bind {m m' : Exec α} {f f' : α → Exec β} {s : State}
    (hm : Outlasts fuel budget (m.run s) (m'.run s))
    (hf : ∀ a t, Outlasts fuel budget ((f a).run t) ((f' a).run t)) :
    Outlasts fuel budget ((m >>= f).run s) ((m' >>= f').run s) := by
  generalize hrun : m.run s = r at hm
  generalize hrun' : m'.run s = r' at hm
  cases hm with
  | same r =>
    cases r with
    | ok a t =>
      rw [run_bind_ok hrun, run_bind_ok hrun']
      exact hf a t
    | error e t =>
      rw [run_bind_error hrun, run_bind_error hrun']
      exact .same _
  | starved t r' =>
    rw [run_bind_error hrun]
    exact .starved t _
  | interrupted r t hstop =>
    rw [run_bind_error hrun']
    exact .interrupted _ t hstop

/-- A charge looks at the clock and the cancel flag if it reaches the mark. -/
protected theorem charge (hle : fuel ≤ budget.fuel) (hchecked : budget.checked = false) (units : UInt64) (s : State) :
    Outlasts fuel budget ((charge { fuel } units).run s) ((charge budget units).run s) := by
  have hrun := charge_run fuel units s
  have hrun' := charge_eq budget units s
  dsimp only at hrun hrun'
  rw [hrun, hrun']
  generalize saturatingAdd s.used units = used
  by_cases hfuel : fuel < used
  · rw [if_pos hfuel]
    exact .starved _ _
  have hfuel' : ¬ budget.fuel < used := fun h => hfuel (UInt64.lt_of_le_of_lt hle h)
  rw [if_neg hfuel, if_neg hfuel']
  unfold State.pollAfter
  by_cases hpoll : s.nextPoll ≤ used
  · rw [if_pos hpoll, if_pos hpoll, if_neg (by simp [Budget.overflows, hchecked])]
    split
    · rename_i hcancelled
      exact .interrupted _ _ (.cancelled used hcancelled)
    · split
      · rename_i hexpired
        exact .interrupted _ _ (.deadline used hexpired)
      · exact .same _
  · rw [if_neg hpoll, if_neg hpoll]
    exact .same _

/-- A run that has come to its end does so again, unless it is interrupted. -/
theorem eq_or_interrupted {a : α} {s : State} {r' : EStateM.Result Stop State α}
    (h : Outlasts fuel budget (.ok a s) r') :
    r' = .ok a s ∨ ∃ stop t, r' = .error stop t ∧ budget.Interrupts stop := by
  cases h with
  | same => exact .inl rfl
  | interrupted _ t hstop => exact .inr ⟨_, t, rfl, hstop⟩

/-- By induction on the rounds that the first run may still make. -/
protected theorem whileRounds (hle : fuel ≤ budget.fuel) (hchecked : budget.checked = false)
    {test test' : Exec Value} {body body' : Exec Flow} (htest : ∀ s, Outlasts fuel budget (test.run s) (test'.run s))
    (hbody : ∀ s, Outlasts fuel budget (body.run s) (body'.run s)) (count : Nat) :
    ∀ (count' : Nat) (s : State), count ≤ count' → Outlasts fuel budget
      ((whileRounds { fuel } test body count).run s) ((whileRounds budget test' body' count').run s) := by
  induction count with
  | zero =>
    intro count' s _
    exact .starved s _
  | succ count ih =>
    intro count' s hcount
    obtain ⟨count', rfl⟩ := Nat.exists_eq_add_of_le' hcount
    refine .bind (.charge hle hchecked 1 s) fun _ t => .bind (htest t) fun v t => .bind (.same _) fun b t => ?_
    cases b with
    | false => exact .same _
    | true =>
      refine .bind (hbody t) fun flow t => ?_
      have hrest := ih (count' + count) t (Nat.le_add_left ..)
      cases flow with
      | next => exact hrest
      | cont => exact hrest
      | _ => exact .same _

end Outlasts

/-- A composed action does what it does if nobody interrupts it, until somebody does. -/
theorem Metered.outlasts (hle : fuel ≤ budget.fuel) (hchecked : budget.checked = false) {names : String → Prop}
    {m : Budget → Exec α} (h : Metered names m) (s : State) :
    Outlasts fuel budget ((m { fuel }).run s) ((m budget).run s) := by
  induction h generalizing s with
  | quiet h => exact .same _
  | charge units _ => exact .charge hle hchecked units s
  | bind _ _ ihm ihf => exact .bind (ihm s) ihf
  | setVar value _ => exact .same _
  | shielding _ ih =>
    rw [shielding_run, shielding_run]
    exact (ih _).endIn _
  | inFrame frame _ ih =>
    rw [inFrame_run, inFrame_run]
    exact (ih _).endIn _
  | loop _ _ ihtest ihbody =>
    exact .whileRounds hle hchecked ihtest ihbody _ _ s (Nat.succ_le_succ (UInt64.le_iff_toNat_le.mp hle))

namespace Program

theorem perform_outlasts (p : Program) (name : String) (args : List Datum) (hle : fuel ≤ budget.fuel)
    (hchecked : budget.checked = false) :
    Outlasts fuel budget ((p.perform { fuel } name args).run {}) ((p.perform budget name args).run {}) :=
  (p.perform_metered name args).outlasts hle hchecked {}

/-- A run that has come to its end comes to the same end with any fuel that is no less than what it has
spent, unless it is interrupted. -/
theorem perform_again {p : Program} {name : String} {args : List Datum} {d : Datum} {s : State}
    (h : (p.perform { fuel } name args).run {} = .ok d s) (hused : s.used ≤ budget.fuel)
    (hchecked : budget.checked = false) :
    (p.perform budget name args).run {} = .ok d s ∨
      ∃ stop t, (p.perform budget name args).run {} = .error stop t ∧ budget.Interrupts stop := by
  by_cases hle : fuel ≤ budget.fuel
  · have houtlasts := p.perform_outlasts name args hle hchecked
    rw [h] at houtlasts
    exact houtlasts.eq_or_interrupted
  · -- With less fuel than it was given, it still does not run out of fuel.
    rw [UInt64.not_le] at hle
    have hroom : budget.fuel.toNat + 1 < UInt64.size := by
      have := fuel.toNat_lt_size
      rw [UInt64.lt_iff_toNat_lt] at hle
      omega
    have hcut := p.perform_cutOff name args (UInt64.le_of_lt hle) hroom
    rw [h] at hcut
    have houtlasts := p.perform_outlasts name args (UInt64.le_refl budget.fuel) hchecked
    generalize (p.perform { fuel := budget.fuel } name args).run {} = r at hcut houtlasts
    cases hcut with
    | same => exact houtlasts.eq_or_interrupted
    | cut t hmore => exact absurd hmore (UInt64.not_lt.mpr hused)

/-- The same of the value, the output and the fuel spent. -/
theorem run_again {p : Program} {name : String} {args : List Datum} {e : Execution}
    (h : p.run { fuel } name args = .ok e) (hused : e.used ≤ budget.fuel)
    (hchecked : budget.checked = false) :
    p.run budget name args = .ok e ∨
      ∃ stop, p.run budget name args = .error stop ∧ budget.Interrupts stop := by
  unfold run at h
  split at h
  · rename_i d s hrun
    cases h
    rcases perform_again hrun hused hchecked with hrun' | ⟨stop, t, hrun', hstop⟩
    · exact .inl (by rw [run, show p.perform budget name args {} = _ from hrun'])
    · exact .inr ⟨stop, by rw [run, show p.perform budget name args {} = _ from hrun'], hstop⟩
  · cases h

/-- Likewise for loading a program. -/
theorem load_again {p : Program} {s : State} (h : (p.load { fuel := budget.fuel }).run {} = .ok () s)
    (hchecked : budget.checked = false) :
    (p.load budget).run {} = .ok () s ∨
      ∃ stop t, (p.load budget).run {} = .error stop t ∧ budget.Interrupts stop := by
  have houtlasts : Outlasts budget.fuel budget _ _ := p.load_metered.outlasts (UInt64.le_refl _) hchecked {}
  rw [h] at houtlasts
  exact houtlasts.eq_or_interrupted

end Program

end ProgramBreeding

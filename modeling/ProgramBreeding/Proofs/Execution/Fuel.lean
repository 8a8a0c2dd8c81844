import ProgramBreeding.Proofs.Execution.Metering

/-!
# What fuel decides

Two runs of a program that differ in their fuel do the same, up to the step that the
smaller fuel does not allow.

## Main definitions

* `CutOff` — how an action ends under some fuel, and under more.
* `Cuts` — two actions that end so.
* `Metered.cuts` — what a composed action does under some fuel and under more.
* `Program.perform_fuel` — the fuel that a run spends decides whether less is enough.

## Design notes

A loop under a condition makes as many rounds as its fuel has units, and one more.  The last
one of them is never made, since every round before it has spent a unit; this is why
`Cuts` counts the fuel that is already spent.
-/

namespace ProgramBreeding

variable {α β : Type} {fuel fuel' : UInt64} {spent : Nat}

/-- Fuel that is spent stays spent. -/
theorem used_invariant : StepInvariant fun _ s t => s.used ≤ t.used where
  trans _ _ _ _ := UInt64.le_trans
  quiet _ _ _ _ := UInt64.le_refl _
  charge _ budget units s := by
    obtain ⟨nextPoll, hend⟩ := endState_charge budget units s
    rw [hend, UInt64.le_iff_toNat_le, toNat_saturatingAdd]
    have := s.used.toNat_lt_size
    omega
  setVar _ _ _ s _ := by rw [State.updateScope_used]; exact UInt64.le_refl _
  shielding h := by
    rw [State.updateScope_used] at h
    rw [State.restore, State.updateScope_used]
    exact h
  inFrame h := h

/-- An action that takes back no fuel. -/
abbrev Spends (m : Exec α) : Prop := Leads (fun s t => s.used ≤ t.used) m

theorem Spends.bind {m : Exec α} {f : α → Exec β} (hm : Spends m) (hf : ∀ a, Spends (f a)) :
    Spends (m >>= f) :=
  Leads.bind (used_invariant.trans fun _ => True) hm hf

/-- How an action ends under some fuel, and under more.  Either the smaller fuel is enough,
and nothing differs; or it is not, and the action stops for that; or else even the greater
fuel is not enough. -/
inductive CutOff (fuel fuel' : UInt64) :
    EStateM.Result Stop State α → EStateM.Result Stop State α → Prop
  | same {r : EStateM.Result Stop State α} (h : (endState r).used ≤ fuel) : CutOff fuel fuel' r r
  | cut {r' : EStateM.Result Stop State α} (s : State) (h : fuel < (endState r').used) :
      CutOff fuel fuel' (.error (.outOfFuel fuel) s) r'
  | starved (r : EStateM.Result Stop State α) (s : State) :
      CutOff fuel fuel' r (.error (.outOfFuel fuel') s)

/-- What is undone afterwards leaves the fuel spent. -/
protected theorem CutOff.endIn {r r' : EStateM.Result Stop State α} {f : State → State}
    (h : CutOff fuel fuel' r r') (hf : ∀ s, (f s).used = s.used) :
    CutOff fuel fuel' (endIn f r) (endIn f r') := by
  cases h with
  | same h => exact .same (by rwa [endState_endIn, hf])
  | cut s h => exact .cut (f s) (by rwa [endState_endIn, hf])
  | starved r s => exact .starved (ProgramBreeding.endIn f r) (f s)

/-- Two actions that end so from all states in which at least so much fuel is spent, but not
more than the first may spend. -/
structure Cuts (fuel fuel' : UInt64) (spent : Nat) (m m' : Exec α) : Prop where
  cutOff : ∀ s : State, spent ≤ s.used.toNat → s.used ≤ fuel →
    CutOff fuel fuel' (m.run s) (m'.run s)
  spends : Spends m
  spends' : Spends m'

namespace Cuts

protected theorem quiet {m : Exec α} (h : Quiet m) : Cuts fuel fuel' spent m m where
  cutOff s _ hs := by
    obtain ⟨heap, output, hend⟩ := h.ends s
    exact .same (by rw [hend]; exact hs)
  spends := used_invariant.leads_quiet (fun _ => True) h
  spends' := used_invariant.leads_quiet (fun _ => True) h

protected theorem setVar (x : String) (value : Value) :
    Cuts fuel fuel' spent (setVar x value) (setVar x value) where
  cutOff s _ hs := .same (by
    show (s.updateScope (Scope.insert x value)).used ≤ fuel
    rwa [State.updateScope_used])
  spends s := used_invariant.setVar (fun _ => True) value s trivial
  spends' s := used_invariant.setVar (fun _ => True) value s trivial

protected theorem shielding {x : String} {m m' : Exec α} (h : Cuts fuel fuel' spent m m') :
    Cuts fuel fuel' spent (shielding x m) (shielding x m') where
  cutOff s hspent hs := by
    rw [shielding_run, shielding_run]
    rw [← s.updateScope_used fun scope => scope.erase x] at hspent hs
    exact (h.cutOff _ hspent hs).endIn fun t => by rw [State.restore, State.updateScope_used]
  spends := used_invariant.leads_shielding (fun _ => True) h.spends
  spends' := used_invariant.leads_shielding (fun _ => True) h.spends'

protected theorem inFrame (frame : Scope) {m m' : Exec α} (h : Cuts fuel fuel' spent m m') :
    Cuts fuel fuel' spent (inFrame frame m) (inFrame frame m') where
  cutOff s hspent hs := by
    rw [inFrame_run, inFrame_run]
    exact (h.cutOff { s with frames := frame :: s.frames } hspent hs).endIn fun _ => rfl
  spends := used_invariant.leads_inFrame (fun _ => True) frame h.spends
  spends' := used_invariant.leads_inFrame (fun _ => True) frame h.spends'

/-- What is done next, both do in the same state, or it is too late for the first. -/
protected theorem bind {m m' : Exec α} {f f' : α → Exec β} (hm : Cuts fuel fuel' spent m m')
    (hf : ∀ a, Cuts fuel fuel' spent (f a) (f' a)) :
    Cuts fuel fuel' spent (m >>= f) (m' >>= f') where
  cutOff s hspent hs := by
    have hcut := hm.cutOff s hspent hs
    have hmore := hm.spends s
    generalize hrun : m.run s = r at hcut hmore
    generalize hrun' : m'.run s = r' at hcut
    cases hcut with
    | same h =>
      cases r with
      | ok a t =>
        rw [run_bind_ok hrun, run_bind_ok hrun']
        exact (hf a).cutOff t (Nat.le_trans hspent (UInt64.le_iff_toNat_le.mp hmore)) h
      | error e t =>
        rw [run_bind_error hrun, run_bind_error hrun']
        exact .same h
    | cut t h =>
      rw [run_bind_error hrun]
      cases r' with
      | ok a t' =>
        rw [run_bind_ok hrun']
        exact .cut t (UInt64.lt_of_lt_of_le h ((hf a).spends' t'))
      | error e t' =>
        rw [run_bind_error hrun']
        exact .cut t h
    | starved r t =>
      rw [run_bind_error hrun']
      exact .starved _ t
  spends := hm.spends.bind fun a => (hf a).spends
  spends' := hm.spends'.bind fun a => (hf a).spends'

/-- The smaller fuel may not allow a charge that the greater one does.  If both do, what is
done next starts with more fuel spent. -/
protected theorem chargeThen (hle : fuel ≤ fuel') (hroom : fuel.toNat + 1 < UInt64.size)
    {units : UInt64} {m m' : Exec α} (h : Cuts fuel fuel' (spent + units.toNat) m m') :
    Cuts fuel fuel' spent (do charge { fuel } units; m)
      (do charge { fuel := fuel' } units; m') where
  cutOff s hspent hs := by
    have hrun := charge_run fuel units s
    have hrun' := charge_run fuel' units s
    dsimp only at hrun hrun'
    have hsum := toNat_saturatingAdd s.used units
    generalize saturatingAdd s.used units = used at hrun hrun' hsum
    by_cases hfuel : fuel < used
    · rw [if_pos hfuel] at hrun
      rw [run_bind_error hrun]
      by_cases hfuel' : fuel' < used
      · rw [if_pos hfuel'] at hrun'
        rw [run_bind_error hrun']
        exact .starved ..
      · rw [if_neg hfuel'] at hrun'
        rw [run_bind_ok hrun']
        exact .cut _ (UInt64.lt_of_lt_of_le (b := used) hfuel
          (h.spends' { s with used, nextPoll := s.pollAfter used }))
    · have hfuel' : ¬ fuel' < used := fun h => hfuel (UInt64.lt_of_le_of_lt hle h)
      rw [if_neg hfuel] at hrun
      rw [if_neg hfuel'] at hrun'
      rw [run_bind_ok hrun, run_bind_ok hrun']
      refine h.cutOff _ ?_ (UInt64.not_lt.mp hfuel)
      -- The sum is not the greatest word, since it is within the smaller fuel.
      rw [UInt64.not_lt, UInt64.le_iff_toNat_le] at hfuel
      show spent + units.toNat ≤ used.toNat
      omega
  spends := .bind (m := ProgramBreeding.charge _ units)
    (used_invariant.charge (fun _ => True) { fuel } units) fun _ => h.spends
  spends' := .bind (m := ProgramBreeding.charge _ units)
    (used_invariant.charge (fun _ => True) { fuel := fuel' } units) fun _ => h.spends'

protected theorem charge (hle : fuel ≤ fuel') (hroom : fuel.toNat + 1 < UInt64.size) (units : UInt64) :
    Cuts fuel fuel' spent (charge { fuel } units) (charge { fuel := fuel' } units) := by
  have hrest : Cuts fuel fuel' (spent + units.toNat) (pure ()) (pure ()) := .quiet (.pure ())
  simpa using hrest.chargeThen hle hroom

/-- By induction on the numbers of rounds: a run that makes as many as it may has spent more
than its fuel. -/
protected theorem whileRounds (hle : fuel ≤ fuel') (hroom : fuel.toNat + 1 < UInt64.size) {test test' : Exec Value}
    {body body' : Exec Flow} (htest : ∀ spent, Cuts fuel fuel' spent test test')
    (hbody : ∀ spent, Cuts fuel fuel' spent body body') :
    ∀ count count' spent : Nat, fuel.toNat < count + spent → fuel'.toNat < count' + spent →
      Cuts fuel fuel' spent (whileRounds { fuel } test body count)
        (whileRounds { fuel := fuel' } test' body' count') := by
  have hspends (count : Nat) : Spends (ProgramBreeding.whileRounds { fuel } test body count) :=
    used_invariant.leads_whileRounds (fun _ => True) _ (htest 0).spends (hbody 0).spends _
  have hspends' (count : Nat) :
      Spends (ProgramBreeding.whileRounds { fuel := fuel' } test' body' count) :=
    used_invariant.leads_whileRounds (fun _ => True) _ (htest 0).spends'
      (hbody 0).spends' _
  intro count
  induction count with
  | zero =>
    intro count' spent hcount _
    refine ⟨fun s hspent hs => ?_, hspends 0, hspends' count'⟩
    rw [UInt64.le_iff_toNat_le] at hs
    omega
  | succ count ih =>
    intro count' spent hcount hcount'
    cases count' with
    | zero =>
      refine ⟨fun s hspent hs => ?_, hspends _, hspends' 0⟩
      rw [UInt64.le_iff_toNat_le] at hs
      rw [UInt64.le_iff_toNat_le] at hle
      omega
    | succ count' =>
      refine .chargeThen hle hroom (.bind (htest _) fun v => .bind (.quiet (.truth v)) fun b => ?_)
      cases b with
      | false => exact .quiet (.pure _)
      | true =>
        refine .bind (hbody _) fun flow => ?_
        have hrest := ih count' (spent + 1) (by omega) (by omega)
        cases flow with
        | next => exact hrest
        | cont => exact hrest
        | _ => exact .quiet (.pure _)

end Cuts

/-- A composed action does the same under more fuel, up to the step that less fuel does not
allow. -/
theorem Metered.cuts (hle : fuel ≤ fuel') (hroom : fuel.toNat + 1 < UInt64.size)
    {names : String → Prop} {m : Budget → Exec α} (h : Metered names m) (spent : Nat) :
    Cuts fuel fuel' spent (m { fuel }) (m { fuel := fuel' }) := by
  induction h generalizing spent with
  | quiet h => exact .quiet h
  | charge units _ => exact .charge hle hroom units
  | bind _ _ ihm ihf => exact .bind (ihm spent) fun a => ihf a spent
  | setVar value _ => exact .setVar _ _
  | shielding _ ih => exact .shielding (ih spent)
  | inFrame frame _ ih => exact .inFrame _ (ih spent)
  | loop _ _ ihtest ihbody =>
    exact .whileRounds hle hroom ihtest ihbody _ _ spent (by dsimp only; omega) (by dsimp only; omega)

/-- A run of a program under some fuel is the one under more, or it is cut off. -/
theorem Program.perform_cutOff (p : Program) (name : String) (args : List Datum) (hle : fuel ≤ fuel')
    (hroom : fuel.toNat + 1 < UInt64.size) :
    CutOff fuel fuel' ((p.perform { fuel } name args).run {}) ((p.perform { fuel := fuel' } name args).run {}) :=
  ((p.perform_metered name args).cuts hle hroom 0).cutOff {} (Nat.zero_le _)
    (UInt64.le_iff_toNat_le.mpr (Nat.zero_le _))

/-- Less fuel changes what a run does only by cutting it off.  If a run of a program comes
to its end, less fuel is enough for the same result, output and final state, down to the fuel
that the run spends; with less than that it runs out of fuel. -/
theorem Program.perform_fuel (p : Program) (name : String) (args : List Datum)
    (hle : fuel ≤ fuel') {r : EStateM.Result Stop State Datum}
    (hrun : (p.perform { fuel := fuel' } name args).run {} = r)
    (hends : ∀ s, r ≠ .error (.outOfFuel fuel') s) :
    ((endState r).used ≤ fuel → (p.perform { fuel } name args).run {} = r) ∧
      (fuel < (endState r).used →
        ∃ s, (p.perform { fuel } name args).run {} = .error (.outOfFuel fuel) s) := by
  by_cases hroom : fuel.toNat + 1 < UInt64.size
  · have hcut := p.perform_cutOff name args hle hroom
    rw [hrun] at hcut
    generalize (p.perform { fuel } name args).run {} = r' at hcut
    cases hcut with
    | same h => exact ⟨fun _ => rfl, fun h' => absurd h' (UInt64.not_lt.mpr h)⟩
    | cut s h => exact ⟨fun h' => absurd h (UInt64.not_lt.mpr h'), fun _ => ⟨s, rfl⟩⟩
    | starved _ s => exact absurd rfl (hends s)
  · -- No run spends more than the greatest word.
    have hused := (endState r).used.toNat_lt_size
    have hfuel := fuel'.toNat_lt_size
    rw [UInt64.le_iff_toNat_le] at hle
    rw [UInt64.lt_iff_toNat_lt, UInt64.toNat.inj (show fuel.toNat = fuel'.toNat by omega)]
    exact ⟨fun _ => hrun, fun h => by omega⟩

/-- A program that counts down: `def f(n):` with `while n: n = n - 1` and `return n`. -/
def countdown : Program :=
  .ofTree ⟨0, 0, 11, [.functionDef 1 "f" ["n"]
    [.whileLoop 2 (.name 3 "n")
      [.assign 4 (.name 5 "n") (.binary 6 .sub (.name 7 "n") (.constant 8 (.int 1)))],
      .ret 9 (some (.name 10 "n"))]]⟩

theorem perform_fuel_countdown :
    (∃ s, (countdown.perform { fuel := 12 } "f" [.int 2]).run {} = .error (.outOfFuel 12) s) ∧
      (countdown.perform { fuel := 20 } "f" [.int 2]).run {} =
        (countdown.perform { fuel := 400 } "f" [.int 2]).run {} := by
  have hends : ∀ s, (countdown.perform { fuel := 400 } "f" [.int 2]).run {} ≠
      .error (.outOfFuel 400) s := by
    have hok : ∃ s, (countdown.perform { fuel := 400 } "f" [.int 2]).run {} = .ok (.int 0) s :=
      ⟨_, rfl⟩
    obtain ⟨s, hok⟩ := hok
    rw [hok]
    exact fun _ => nofun
  exact ⟨(countdown.perform_fuel "f" [.int 2] (by decide) rfl hends).2 (by decide +kernel),
    (countdown.perform_fuel "f" [.int 2] (by decide) rfl hends).1 (by decide +kernel)⟩

end ProgramBreeding

import ProgramBreeding.Proofs.Execution.Ledger

/-!
# The accounts of a session

A program is loaded and its functions are called, in whatever order, and all of it is paid from one budget.
What has been charged is never forgotten, whether a request succeeds or fails: the meter shows the sum of all
charges for as long as a word can hold it.

## Main definitions

* `total` — what some charges come to.
* `Shows` — a meter that shows this, with a mark that is the sum it should be.
* `Balanced` — the charges of an action, and how it ends, when the charges before it are known.
* `balanced_congruence` — composed actions are balanced.
* `Program.Session` — what sessions come to.
* `Program.session_balanced` — the requests of a session are balanced.

## Design notes

A sum that a word cannot hold is shown as the greatest word.  This is more than any fuel but the greatest, so
under the greatest fuel, and only there, a run may pass its budget.  Marks are not held back in this way: if
the fuel is less than an interval below the greatest word, the sum that sets a mark may leave the words.  Where
sums are checked the request is aborted then, and the session is over.  Elsewhere the mark is wrapped around.
-/

namespace ProgramBreeding

variable {α β : Type}

/-- What some charges come to. -/
def total : List Charge → Nat
  | [] => 0
  | c :: rest => c.units.toNat + total rest

theorem total_append (made later : List Charge) : total (made ++ later) = total made + total later := by
  induction made with
  | nil => exact (Nat.zero_add _).symm
  | cons c rest ih =>
    show c.units.toNat + total (rest ++ later) = c.units.toNat + total rest + total later
    rw [ih, Nat.add_assoc]

theorem total_concat (made : List Charge) (c : Charge) : total (made ++ [c]) = total made + c.units.toNat :=
  total_append made [c]

/-- A mark that is an interval past what the charges came to at some time. -/
def IsMarkOf (made : List Charge) (mark : UInt64) : Prop :=
  ∃ before, before <+: made ∧ mark.toNat = total before + pollInterval.toNat

theorem IsMarkOf.append {made : List Charge} {mark : UInt64} (h : IsMarkOf made mark) (later : List Charge) :
    IsMarkOf (made ++ later) mark := by
  obtain ⟨before, hbefore, hmark⟩ := h
  exact ⟨before, hbefore.trans (List.prefix_append ..), hmark⟩

/-- A meter that shows what some charges come to, as far as a word can hold it.  Its mark is the sum it should
be if sums are checked, or if there is room for an interval above the fuel. -/
structure Shows (budget : Budget) (made : List Charge) (used nextPoll : UInt64) : Prop where
  used : used.toNat = min (total made) (UInt64.size - 1)
  nextPoll : budget.checked = true ∨ budget.fuel.toNat + pollInterval.toNat < UInt64.size → IsMarkOf made nextPoll

/-- A sum that does not leave the words is exact, and so is the one under it. -/
theorem add_pollInterval_toNat {budget : Budget} {used : UInt64}
    (h : budget.checked = true ∨ budget.fuel.toNat + pollInterval.toNat < UInt64.size)
    (hfuel : ¬ budget.fuel < used) (hoverflows : ¬ budget.overflows used = true) :
    used.toNat + pollInterval.toNat < UInt64.size := by
  rcases h with hchecked | hroom
  · unfold Budget.overflows at hoverflows
    rw [hchecked, Bool.true_and, decide_eq_true_iff] at hoverflows
    exact Nat.lt_of_not_le hoverflows
  · rw [UInt64.not_lt, UInt64.le_iff_toNat_le] at hfuel
    exact Nat.lt_of_le_of_lt (Nat.add_le_add_right hfuel _) hroom

/-- The sum with one more charge, as far as a word can hold it. -/
theorem Shows.toNat_saturatingAdd_used {budget : Budget} {made : List Charge} {s : State}
    (h : Shows budget made s.used s.nextPoll) (units : UInt64) :
    (saturatingAdd s.used units).toNat = min (total (made ++ [.made budget units s])) (UInt64.size - 1) := by
  rw [toNat_saturatingAdd, h.used, total_concat, Charge.made_eq]
  dsimp only
  omega

theorem Shows.charge {budget : Budget} {made : List Charge} {s : State}
    (h : Shows budget made s.used s.nextPoll) (units : UInt64) :
    Shows budget (made ++ [.made budget units s]) (Charge.made budget units s).used
      (Charge.made budget units s).nextPoll := by
  have hused := h.toNat_saturatingAdd_used units
  rw [Charge.made_eq] at hused ⊢
  constructor
  · exact hused
  · intro hexact
    unfold Budget.nextMark
    split
    · exact (h.nextPoll hexact).append _
    · rename_i hfuel
      split
      · exact (h.nextPoll hexact).append _
      · rename_i hoverflows
        unfold State.pollAfter
        split
        · have hroom := add_pollInterval_toNat hexact hfuel hoverflows
          refine ⟨_, List.prefix_rfl, ?_⟩
          rw [total_concat] at hused ⊢
          rw [UInt64.toNat_add, Nat.mod_eq_of_lt hroom]
          have hinterval : pollInterval.toNat = 256 := by decide
          dsimp only at hused ⊢
          omega
        · exact (h.nextPoll hexact).append _

/-- A charge of two actions belongs to the first or to the second. -/
theorem append_eq_append_cons {charges later now after : List Charge} {c : Charge}
    (h : charges ++ later = now ++ c :: after) :
    (∃ rest, charges = now ++ c :: rest) ∨ ∃ before, now = charges ++ before ∧ later = before ++ c :: after := by
  obtain ⟨before, hnow, hlater⟩ | ⟨rest, hcharges, hafter⟩ := List.append_eq_append_iff.mp h
  · exact .inr ⟨before, hnow, hlater⟩
  · cases rest with
    | nil => exact .inr ⟨[], by simp [hcharges], by simpa using hafter.symm⟩
    | cons c' rest =>
      cases hafter
      exact .inl ⟨rest, hcharges⟩

/-- The charges of an action that is taken after others, and how it ends.  After each of them the meter shows
what all charges come to.  The first that passes the fuel is the last one, and the action is out of fuel; unless
the fuel is the greatest word, where the action is aborted if sums are checked.  An action is aborted only when all
charges have come within an interval of what is no word, and that only if the fuel has. -/
structure Balanced (budget : Budget) (made charges : List Charge) (r : EStateM.Result Stop State α) : Prop where
  units : ∀ c ∈ charges, c.units ≠ 0
  shown : ∀ now c later, charges = now ++ c :: later → Shows budget (made ++ now ++ [c]) c.used c.nextPoll
  ends : Shows budget (made ++ charges) (endState r).used (endState r).nextPoll
  stops : budget.fuel.toNat + 1 < UInt64.size → ∀ now c later, charges = now ++ c :: later →
    budget.fuel.toNat < total (made ++ now ++ [c]) → later = [] ∧ ∃ t, r = .error (.outOfFuel budget.fuel) t
  aborts : budget.checked = true → budget.fuel.toNat + 1 = UInt64.size → ∀ now c later, charges = now ++ c :: later →
    budget.fuel.toNat < total (made ++ now ++ [c]) → later = [] ∧ ∃ t, r = .error .overflow t
  aborted : ∀ t, r = .error .overflow t → budget.checked = true ∧
    UInt64.size ≤ total (made ++ charges) + pollInterval.toNat ∧ UInt64.size ≤ budget.fuel.toNat + pollInterval.toNat

namespace Balanced

variable {budget : Budget} {made : List Charge} {s : State}

/-- What makes no charge leaves the meter as it is. -/
protected theorem nil (h : Shows budget made s.used s.nextPoll) {r : EStateM.Result Stop State α}
    (hused : (endState r).used = s.used) (hpoll : (endState r).nextPoll = s.nextPoll)
    (hgoes : ∀ t, r ≠ .error .overflow t) : Balanced budget made [] r where
  units _ hc := absurd hc List.not_mem_nil
  shown _ _ _ hsplit := absurd hsplit (by simp)
  ends := by
    rw [List.append_nil, hused, hpoll]
    exact h
  stops _ _ _ _ hsplit := absurd hsplit (by simp)
  aborts _ _ _ _ _ hsplit := absurd hsplit (by simp)
  aborted t hstop := absurd hstop (hgoes t)

/-- A charge that passes the greatest fuel reaches the mark, whatever it is, and no sum is left for the next. -/
theorem charge_of_total (h : Shows budget made s.used s.nextPoll) {units : UInt64} (hchecked : budget.checked = true)
    (hgreatest : budget.fuel.toNat + 1 = UInt64.size)
    (hpassed : budget.fuel.toNat < total (made ++ [Charge.made budget units s])) :
    ∃ t, (charge budget units).run s = .error .overflow t := by
  have hused := h.toNat_saturatingAdd_used units
  have hinterval : pollInterval.toNat = 256 := by decide
  refine ⟨_, charge_of_overflows budget ?_ ?_ ?_⟩
  · rw [UInt64.lt_iff_toNat_lt]
    omega
  · rw [UInt64.le_iff_toNat_le]
    have := s.nextPoll.toNat_lt_size
    omega
  · unfold Budget.overflows
    rw [hchecked, Bool.true_and, decide_eq_true_iff]
    omega

/-- A charge is aborted only where sums are checked, within the fuel and for a sum that is no word. -/
theorem charge_eq_overflow {units : UInt64} {t : State} (h : (charge budget units).run s = .error .overflow t) :
    budget.checked = true ∧ UInt64.size ≤ (saturatingAdd s.used units).toNat + pollInterval.toNat ∧
      UInt64.size ≤ budget.fuel.toNat + pollInterval.toNat := by
  rw [charge_eq] at h
  dsimp only at h
  by_cases hfuel : budget.fuel < saturatingAdd s.used units
  · rw [if_pos hfuel] at h
    cases h
  · rw [if_neg hfuel] at h
    split at h
    · by_cases hoverflows : budget.overflows (saturatingAdd s.used units) = true
      · unfold Budget.overflows at hoverflows
        rw [Bool.and_eq_true, decide_eq_true_iff] at hoverflows
        rw [UInt64.not_lt, UInt64.le_iff_toNat_le] at hfuel
        exact ⟨hoverflows.1, hoverflows.2, Nat.le_trans hoverflows.2 (Nat.add_le_add_right hfuel _)⟩
      · rw [if_neg hoverflows] at h
        split at h
        · cases h
        · split at h <;> cases h
    · cases h

protected theorem charge {units : UInt64} (hunits : IsPrice units) (h : Shows budget made s.used s.nextPoll) :
    Balanced budget made [.made budget units s] ((charge budget units).run s) := by
  have hsplits {now later : List Charge} {c : Charge} (hsplit : [.made budget units s] = now ++ c :: later) :
      now = [] ∧ c = .made budget units s ∧ later = [] := by
    obtain ⟨rfl, hcons⟩ | ⟨_, hcons, _⟩ := List.append_eq_cons_iff.mp hsplit.symm
    · cases hcons
      exact ⟨rfl, rfl, rfl⟩
    · simp at *
  constructor
  · intro c hc
    rw [List.mem_singleton.mp hc]
    exact hunits.ne_zero
  · intro now c later hsplit
    obtain ⟨rfl, rfl, rfl⟩ := hsplits hsplit
    rw [List.append_nil]
    exact h.charge units
  · exact h.charge units
  · intro hroom now c later hsplit hpassed
    obtain ⟨rfl, rfl, rfl⟩ := hsplits hsplit
    have hused := h.toNat_saturatingAdd_used units
    rw [List.append_nil] at hpassed
    refine ⟨rfl, _, charge_of_fuel_lt budget (UInt64.lt_iff_toNat_lt.mpr ?_)⟩
    omega
  · intro hchecked hgreatest now c later hsplit hpassed
    obtain ⟨rfl, rfl, rfl⟩ := hsplits hsplit
    rw [List.append_nil] at hpassed
    exact ⟨rfl, charge_of_total h hchecked hgreatest hpassed⟩
  · intro t hstop
    obtain ⟨hchecked, hsum, hfuel⟩ := charge_eq_overflow hstop
    have hused := h.toNat_saturatingAdd_used units
    exact ⟨hchecked, by omega, hfuel⟩

/-- What is done after an action that succeeds adds to its charges. -/
protected theorem append {charges later : List Charge} {a : α} {r : EStateM.Result Stop State β}
    (h : Balanced budget made charges (.ok a s)) (h' : Balanced budget (made ++ charges) later r) :
    Balanced budget made (charges ++ later) r := by
  constructor
  · intro c hc
    exact (List.mem_append.mp hc).elim (h.units c) (h'.units c)
  · intro now c after hsplit
    obtain ⟨rest, hcharges⟩ | ⟨before, rfl, hlater⟩ := append_eq_append_cons hsplit
    · exact h.shown now c rest hcharges
    · rw [← List.append_assoc]
      exact h'.shown before c after hlater
  · rw [← List.append_assoc]
    exact h'.ends
  · intro hroom now c after hsplit hpassed
    obtain ⟨rest, hcharges⟩ | ⟨before, rfl, hlater⟩ := append_eq_append_cons hsplit
    · -- the first action would have been stopped
      obtain ⟨-, t, hstop⟩ := h.stops hroom now c rest hcharges hpassed
      cases hstop
    · rw [← List.append_assoc] at hpassed
      exact h'.stops hroom before c after hlater hpassed
  · intro hchecked hgreatest now c after hsplit hpassed
    obtain ⟨rest, hcharges⟩ | ⟨before, rfl, hlater⟩ := append_eq_append_cons hsplit
    · obtain ⟨-, t, hstop⟩ := h.aborts hchecked hgreatest now c rest hcharges hpassed
      cases hstop
    · rw [← List.append_assoc] at hpassed
      exact h'.aborts hchecked hgreatest before c after hlater hpassed
  · rw [← List.append_assoc]
    exact h'.aborted

/-- An action that stops ends like all that it is a part of, with a result of whatever type. -/
protected theorem stop {charges : List Charge} {e : Stop}
    (h : Balanced budget made charges (.error e s : EStateM.Result Stop State α)) :
    Balanced budget made charges (.error e s : EStateM.Result Stop State β) where
  units := h.units
  shown := h.shown
  ends := h.ends
  stops hroom now c later hsplit hpassed := by
    obtain ⟨hlater, t, hstop⟩ := h.stops hroom now c later hsplit hpassed
    cases hstop
    exact ⟨hlater, s, rfl⟩
  aborts hchecked hgreatest now c later hsplit hpassed := by
    obtain ⟨hlater, t, hstop⟩ := h.aborts hchecked hgreatest now c later hsplit hpassed
    cases hstop
    exact ⟨hlater, s, rfl⟩
  aborted t hstop := by
    cases hstop
    exact h.aborted s rfl

/-- What is undone afterwards leaves the meter as it is. -/
protected theorem endIn {charges : List Charge} {r : EStateM.Result Stop State α} {f : State → State}
    (h : Balanced budget made charges r) (hused : ∀ t, (f t).used = t.used)
    (hpoll : ∀ t, (f t).nextPoll = t.nextPoll) : Balanced budget made charges (endIn f r) where
  units := h.units
  shown := h.shown
  ends := by
    rw [endState_endIn, hused, hpoll]
    exact h.ends
  stops hroom now c later hsplit hpassed := by
    obtain ⟨hlater, t, rfl⟩ := h.stops hroom now c later hsplit hpassed
    exact ⟨hlater, f t, rfl⟩
  aborts hchecked hgreatest now c later hsplit hpassed := by
    obtain ⟨hlater, t, rfl⟩ := h.aborts hchecked hgreatest now c later hsplit hpassed
    exact ⟨hlater, f t, rfl⟩
  aborted t hstop := by
    cases r with
    | ok a u => cases hstop
    | error e u =>
      cases hstop
      exact h.aborted u rfl

end Balanced

/-- Composed actions are balanced. -/
theorem balanced_congruence (budget : Budget) :
    Recorded.Congruence budget budget fun m _ =>
      ∀ (made : List Charge) (s : State), Shows budget made s.used s.nextPoll →
        Balanced budget made (m.charges s) (m.act.run s) where
  quiet hquiet made s hs := by
    obtain ⟨heap, output, hend⟩ := hquiet.ends s
    refine .nil hs ?_ ?_ (hquiet.goesOn s)
    · exact (congrArg State.used hend :)
    · exact (congrArg State.nextPoll hend :)
  setVar x value made s hs := by
    refine .nil hs (s.updateScope_used _) (s.updateScope_nextPoll _) fun t h => ?_
    cases h
  charge units hunits made s hs := .charge hunits hs
  bind {α β m _ f _} hm hf made s hs := by
    have hfirst := hm made s hs
    cases hrun : m.act.run s with
    | error e t =>
      rw [Recorded.charges_bind_error hrun, Recorded.act_bind, run_bind_error hrun]
      rw [hrun] at hfirst
      exact hfirst.stop
    | ok a t =>
      rw [Recorded.charges_bind_ok hrun, Recorded.act_bind, run_bind_ok hrun]
      rw [hrun] at hfirst
      exact hfirst.append (hf a _ t hfirst.ends)
  shielding x m _ hm made s hs := by
    show Balanced _ _ _ ((shielding x m.act).run s)
    rw [shielding_run]
    refine (hm made (s.updateScope fun scope => scope.erase x) ?_).endIn ?_ ?_
    · rw [State.updateScope_used, State.updateScope_nextPoll]
      exact hs
    · exact fun t => t.updateScope_used _
    · exact fun t => t.updateScope_nextPoll _
  inFrame frame m _ hm made s hs := by
    show Balanced _ _ _ ((inFrame frame m.act).run s)
    rw [inFrame_run]
    exact (hm made { s with frames := frame :: s.frames } hs).endIn (fun _ => rfl) fun _ => rfl

/-! ### Sessions -/

/-- What is asked for in a session. -/
inductive Request
  | load
  | call (name : String) (args : List Datum)

namespace Program

/-- Does what is asked for.  What a call yields has no part in the accounts. -/
def serve (p : Program) (budget : Budget) : Request → Exec Unit
  | .load => p.load budget
  | .call name args => discard (p.call budget name args)

theorem serve_metered (p : Program) (request : Request) :
    Metered (fun _ => True) fun budget => p.serve budget request := by
  cases request with
  | load => exact p.load_metered
  | call name args => exact .bind (p.call_metered name args _) fun _ => .pure _

/-- What a session comes to, with the charges made in it.  It goes on after a request that fails, but not after
one that is aborted. -/
inductive Session (p : Program) (budget : Budget) (plans : Request → Plan Unit) : List Charge → State → Prop
  | start : Session p budget plans [] {}
  | next {made : List Charge} {s : State} (h : Session p budget plans made s) (request : Request)
    (hgoes : ∀ t, (p.serve budget request).run s ≠ .error .overflow t) :
    Session p budget plans (made ++ (plans request).charges budget s)
      (endState ((p.serve budget request).run s))

section

variable {p : Program} {budget : Budget} {plans : Request → Plan Unit} {made : List Charge} {s : State}

theorem serve_balanced (hplans : ∀ request, (plans request).Describes fun budget => p.serve budget request)
    (hs : Shows budget made s.used s.nextPoll) (request : Request) :
    Balanced budget made ((plans request).charges budget s) ((p.serve budget request).run s) := by
  have hbalanced := (balanced_congruence budget).record rfl (plans request) made s hs
  rw [Plan.act_record, hplans request] at hbalanced
  exact hbalanced

/-- By induction on the requests. -/
theorem Session.shows (hplans : ∀ request, (plans request).Describes fun budget => p.serve budget request)
    (h : p.Session budget plans made s) : Shows budget made s.used s.nextPoll := by
  induction h with
  | start => exact ⟨rfl, fun _ => ⟨[], List.prefix_rfl, rfl⟩⟩
  | next _ request _ ih => exact (serve_balanced hplans ih request).ends

/-- A session goes on after a request that is done. -/
theorem Session.done (h : p.Session budget plans made s) {request : Request} {t : State}
    (hrun : (p.serve budget request).run s = .ok () t) :
    p.Session budget plans (made ++ (plans request).charges budget s) t := by
  have hnext := h.next request fun u hstop => by cases hrun.symm.trans hstop
  rwa [hrun] at hnext

/-- A session goes on after a request with which the program makes an error. -/
theorem Session.failed (h : p.Session budget plans made s) {request : Request} {fault : Fault} {t : State}
    (hrun : (p.serve budget request).run s = .error (.fault fault) t) :
    p.Session budget plans (made ++ (plans request).charges budget s) t := by
  have hnext := h.next request fun u hstop => by cases hrun.symm.trans hstop
  rwa [hrun] at hnext

end

/-- The requests of a session are plans of steps, and whatever plans they are, after every charge of every
request the meter shows what all charges of the session come to, as far as a word can hold it.  The mark is an
interval past what some of them came to, if sums are checked or there is room for an interval above the fuel;
a request is aborted only if sums are checked and there is no such room, above the charges nor above the fuel.
The first charge with which all of them pass the fuel is the last one of the request, which is out of fuel unless
the fuel is the greatest word, and aborted under that if sums are checked. -/
theorem session_balanced (p : Program) :
    (∃ plans : Request → Plan Unit,
      ∀ request, (plans request).Describes fun budget => p.serve budget request) ∧
      ∀ plans : Request → Plan Unit,
        (∀ request, (plans request).Describes fun budget => p.serve budget request) →
          ∀ (budget : Budget) (made : List Charge) (s : State), p.Session budget plans made s →
            ∀ request,
              Balanced budget made ((plans request).charges budget s) ((p.serve budget request).run s) := by
  constructor
  · choose plans hplans using fun request => (p.serve_metered request).exists_plan
    exact ⟨plans, hplans⟩
  · intro plans hplans budget made s hsession request
    exact serve_balanced hplans (hsession.shows hplans) request

end Program

/-- The call that asks for the largest range there is. -/
def widest : Request := .call "f" [.int Int64.minValue, .int Int64.maxValue]

/-- A call that passes the fuel, after loading. -/
theorem session_balanced_spanning :
    ∃ plans : Request → Plan Unit,
      (∀ request, (plans request).Describes fun budget => spanning.serve budget request) ∧
        ∃ made s now c, spanning.Session { fuel := 20, checked := true } plans made s ∧ total made = 1 ∧
          (plans widest).charges { fuel := 20, checked := true } s = now ++ [c] ∧
          total (made ++ now ++ [c]) = 4611686018427387910 ∧
          ∃ t, (spanning.serve { fuel := 20, checked := true } widest).run s = .error (.outOfFuel 20) t := by
  obtain ⟨⟨plans, hplans⟩, hbalanced⟩ := spanning.session_balanced
  obtain ⟨s, t, hload, hused, hcall, hused'⟩ : ∃ s t,
      (spanning.serve { fuel := 20, checked := true } .load).run {} = .ok () s ∧ s.used = 1 ∧
        (spanning.serve { fuel := 20, checked := true } widest).run s = .error (.outOfFuel 20) t ∧
        t.used = 4611686018427387910 := ⟨_, _, rfl, rfl, rfl, rfl⟩
  have hstart : spanning.Session { fuel := 20, checked := true } plans [] {} := .start
  have hsession := hstart.done hload
  have hmeter := (hbalanced plans hplans { fuel := 20, checked := true } [] {} hstart .load).ends.used
  have hnext := hbalanced plans hplans _ _ s hsession widest
  have hmeter' := hnext.ends.used
  rw [hload, show (endState (.ok () s)).used = 1 from hused] at hmeter
  rw [hcall, show (endState (.error _ t)).used = 4611686018427387910 from hused'] at hmeter'
  have hone : (1 : UInt64).toNat = 1 := rfl
  have hmore : (4611686018427387910 : UInt64).toNat = 4611686018427387910 := rfl
  have hsize : UInt64.size - 1 = 18446744073709551615 := rfl
  obtain hnil | ⟨now, c, hcharges⟩ := List.eq_nil_or_concat ((plans widest).charges { fuel := 20, checked := true } s)
  · rw [hnil, List.append_nil] at hmeter'
    omega
  · rw [List.concat_eq_append] at hcharges
    rw [hcharges, ← List.append_assoc] at hmeter'
    exact ⟨plans, hplans, _, s, now, c, hsession, by omega, hcharges, by omega, t, hcall⟩

/-- What makes no charge does the same under another budget. -/
theorem silent_congruence (budget budget' : Budget) :
    Recorded.Congruence budget budget' fun m m' =>
      ∀ s, m.charges s = [] → m'.act.run s = m.act.run s where
  quiet _ _ _ := rfl
  setVar _ _ _ _ := rfl
  charge _ _ _ hnil := absurd hnil (List.cons_ne_nil _ _)
  bind {α β m m' f f'} hm hf s hnil := by
    cases hrun : m.act.run s with
    | error e t =>
      rw [Recorded.charges_bind_error hrun] at hnil
      have hrun' := (hm s hnil).trans hrun
      exact (run_bind_error hrun').trans (run_bind_error hrun).symm
    | ok a t =>
      rw [Recorded.charges_bind_ok hrun, List.append_eq_nil_iff] at hnil
      have hact : (m >>= f).act.run s = (f a).act.run t := run_bind_ok hrun
      have hact' : (m' >>= f').act.run s = (f' a).act.run t := run_bind_ok ((hm s hnil.1).trans hrun)
      rw [hact, hact', hf a t hnil.2]
  shielding x m m' hm s hnil := by
    show (shielding x m'.act).run s = (shielding x m.act).run s
    rw [shielding_run, shielding_run, hm _ hnil]
  inFrame frame m m' hm s hnil := by
    show (inFrame frame m'.act).run s = (inFrame frame m.act).run s
    rw [inFrame_run, inFrame_run, hm _ hnil]

/-- An action that ends differently under two budgets makes a charge. -/
theorem Plan.Describes.charges_ne_nil {plan : Plan α} {m : Budget → Exec α} (h : plan.Describes m)
    {budget budget' : Budget} (hfuel : budget'.fuel = budget.fuel) {s : State}
    (hne : (m budget').run s ≠ (m budget).run s) : plan.charges budget s ≠ [] := by
  intro hnil
  have hsame := (silent_congruence budget budget').record hfuel plan s hnil
  rw [Plan.act_record, Plan.act_record, h, h] at hsame
  exact hne hsame

/-- The greatest fuel. -/
def boundless (checked : Bool) : Budget := { fuel := 18446744073709551615, checked }

/-- Between two requests to `spanning`. -/
def idle (used nextPoll : UInt64) : State := { globals := [("f", .function 1)], used, nextPoll }

/-- Three calls fit in the greatest fuel. -/
theorem session_three (plans : Request → Plan Unit) (checked : Bool) : ∃ made,
    spanning.Session (boundless checked) plans made (idle 13835058055282163728 13835058055282163984) := by
  have hload : (spanning.serve (boundless checked) .load).run {} = .ok () (idle 1 256) := by
    cases checked <;> rfl
  have hfirst : (spanning.serve (boundless checked) widest).run (idle 1 256) =
      .error (.fault .rangeTooLarge) (idle 4611686018427387910 4611686018427388166) := by
    cases checked <;> rfl
  have hsecond : (spanning.serve (boundless checked) widest).run (idle 4611686018427387910 4611686018427388166) =
      .error (.fault .rangeTooLarge) (idle 9223372036854775819 9223372036854776075) := by
    cases checked <;> rfl
  have hthird : (spanning.serve (boundless checked) widest).run (idle 9223372036854775819 9223372036854776075) =
      .error (.fault .rangeTooLarge) (idle 13835058055282163728 13835058055282163984) := by
    cases checked <;> rfl
  exact ⟨_, (((Program.Session.start.done hload).failed hfirst).failed hsecond).failed hthird⟩

/-- With the fourth call the sum that sets the mark leaves the words. -/
theorem session_aborted (plans : Request → Plan Unit) : ∃ made s t,
    spanning.Session (boundless true) plans made s ∧
      (spanning.serve (boundless true) widest).run s = .error .overflow t := by
  obtain ⟨made, hsession⟩ := session_three plans true
  exact ⟨made, _, _, hsession, rfl⟩

/-- Where sums are not checked the fourth call ends like the others, with a mark that was wrapped around, and so
does a fifth. -/
theorem session_wrapped (plans : Request → Plan Unit) : ∃ made s t t',
    spanning.Session (boundless false) plans made s ∧ s.used = 18446744073709551615 ∧ s.nextPoll = 255 ∧
      (spanning.serve (boundless false) widest).run s = .error (.fault .rangeTooLarge) t ∧
      (spanning.serve (boundless true) widest).run s = .error .overflow t' := by
  obtain ⟨made, hsession⟩ := session_three plans false
  have hfourth : (spanning.serve (boundless false) widest).run (idle 13835058055282163728 13835058055282163984) =
      .error (.fault .rangeTooLarge) (idle 18446744073709551615 255) := rfl
  exact ⟨_, _, _, _, hsession.failed hfourth, rfl, rfl, rfl, rfl⟩

/-- Under the greatest fuel the sum that sets the mark leaves the words.  Where sums are checked a request is
aborted for it; elsewhere the mark is not the sum it should be, and charges that pass the fuel do not stop a
run. -/
theorem not_session_balanced :
    ¬ (∀ plans : Request → Plan Unit,
        (∀ request, (plans request).Describes fun budget => spanning.serve budget request) →
          ∀ budget made s, spanning.Session budget plans made s → ∀ request t,
            (spanning.serve budget request).run s ≠ .error .overflow t) ∧
      ¬ (∀ plans : Request → Plan Unit,
        (∀ request, (plans request).Describes fun budget => spanning.serve budget request) →
          ∀ budget made s, spanning.Session budget plans made s → IsMarkOf made s.nextPoll) ∧
      ¬ ∀ plans : Request → Plan Unit,
        (∀ request, (plans request).Describes fun budget => spanning.serve budget request) →
          ∀ budget made s, spanning.Session budget plans made s → ∀ request now c later,
            (plans request).charges budget s = now ++ c :: later →
              budget.fuel.toNat < total (made ++ now ++ [c]) →
                ∃ t, (spanning.serve budget request).run s = .error (.outOfFuel budget.fuel) t := by
  choose plans hplans using fun request => (spanning.serve_metered request).exists_plan
  obtain ⟨made, s, t, t', hsession, hused, hpoll, hrun, hrun'⟩ := session_wrapped plans
  refine ⟨fun hgoes => ?_, fun hmarks => ?_, fun hstops => ?_⟩
  · obtain ⟨made, s, t, hsession, hrun⟩ := session_aborted plans
    exact hgoes plans hplans (boundless true) made s hsession widest t hrun
  · obtain ⟨before, -, hmark⟩ := hmarks plans hplans (boundless false) made s hsession
    rw [hpoll] at hmark
    have hinterval : (255 : UInt64).toNat < pollInterval.toNat := by decide
    omega
  · have hs := hsession.shows hplans
    have hcall := Program.serve_balanced hplans hs widest
    -- the call makes a charge, because it is aborted where sums are checked
    have hne : (spanning.serve (boundless true) widest).run s ≠ (spanning.serve (boundless false) widest).run s := by
      rw [hrun', hrun]
      intro h
      cases h
    have hcharged := (hplans widest).charges_ne_nil (by rfl) hne
    obtain ⟨c, later, hcharges⟩ := List.exists_cons_of_ne_nil hcharged
    have hunits : c.units.toNat ≠ 0 := fun h =>
      hcall.units c (hcharges ▸ List.mem_cons_self ..) (UInt64.toNat.inj h)
    have htotal := hs.used
    rw [hused] at htotal
    have hfuel : (boundless false).fuel.toNat < total (made ++ [] ++ [c]) := by
      rw [List.append_nil, total_concat]
      have hmax : (boundless false).fuel.toNat = UInt64.size - 1 := by decide
      have hmax' : (18446744073709551615 : UInt64).toNat = UInt64.size - 1 := by decide
      omega
    obtain ⟨u, hstop⟩ := hstops plans hplans (boundless false) made s hsession widest [] c later hcharges hfuel
    cases hrun.symm.trans hstop

end ProgramBreeding

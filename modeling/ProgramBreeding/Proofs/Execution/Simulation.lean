import ProgramBreeding.Execution.Eval
import ProgramBreeding.Proofs.Execution.Agreement
import ProgramBreeding.Proofs.Execution.Metering

/-!
# Two runs side by side

Two runs are compared step by step.  They hold the same values up to the labels of functions and the
references of lists, apart from variables that neither reads, and the second has spent no more fuel than
the first accounts for.

## Main definitions

* `Setting` — the limits of two runs and the functions that stand for each other.
* `View` — the variables that may have different values in the two runs.
* `FuelWithin` — what the second run may have spent, with some credit left.
* `State.Agree` — states of the two runs that are alike.
* `Alike` — two actions that come to the same end.
* `Step`, `Sim` — from states that are alike to states that are alike, without new lists or with some.
* `Step.charge`, `Alike.chargeLeft`, `Alike.chargeRight` — fuel spent by both runs or by one.
* `Sim.whileRounds`, `Sim.inFrame` and others — one rule for every step of a run.

## Design notes

Nothing is said about a first run that ends for want of fuel.  Every unit that the first run spends
gives the second one unit and `extra` more; what the second does not spend is its credit.  The lists that
stand for each other become more, and values that agreed still agree then, so what is known of a result
is a relation that depends on the pairing of lists.
-/

namespace ProgramBreeding

/-- Whether a run ends for want of fuel. -/
def Stop.isOutOfFuel : Stop → Bool
  | .outOfFuel _ => true
  | _ => false

/-- The limits of two runs, and which functions stand for each other. -/
structure Setting where
  labels : Labelling
  fuel : UInt64
  fuel' : UInt64
  /-- How much more the second run may spend for each unit of the first. -/
  extra : Nat
  enough : min ((1 + extra) * fuel.toNat + extra) (UInt64.size - 1) ≤ fuel'.toNat
  /-- The names that variables have. -/
  names : String → Prop := fun _ => True
  /-- Whether the second run fails as the first does, and not only completes as it does. -/
  faithful : Prop := True

namespace Setting

/-- The limits of the first run. -/
abbrev budget (S : Setting) : Budget := { fuel := S.fuel }

/-- The limits of the second run. -/
abbrev budget' (S : Setting) : Budget := { fuel := S.fuel' }

theorem fuel_le (S : Setting) : S.fuel.toNat ≤ S.fuel'.toNat := by
  have henough := S.enough
  have hsize := S.fuel.toNat_lt_size
  rw [Nat.add_mul, Nat.one_mul] at henough
  omega

end Setting

/-- The variables that may have different values in two runs: those of the module, and those of the calls
that have not ended, the innermost first. -/
structure View where
  globals : String → Prop
  frames : List (String → Prop)

namespace View

/-- The variables of the open scope that may have different values. -/
def top (V : View) : String → Prop := V.frames.headD V.globals

/-- The same for another set of variables of the open scope. -/
def withTop (V : View) (hidden : String → Prop) : View :=
  match V.frames with
  | [] => { V with globals := hidden }
  | _ :: rest => { V with frames := hidden :: rest }

/-- A new scope. -/
def push (V : View) (hidden : String → Prop) : View := { V with frames := hidden :: V.frames }

/-- The names that cannot be read. -/
def Hides (V : View) (x : String) : Prop := V.globals x ∨ V.top x

@[simp] theorem withTop_top (V : View) : V.withTop V.top = V := by
  obtain ⟨globals, frames⟩ := V
  cases frames <;> rfl

end View

variable {S : Setting} {V : View} {P Q : Pairing} {c c' d : Nat} {α β γ δ : Type}

/-- The second run has spent what the first has, with `extra` for each unit, less some credit.  No
run spends more than the greatest word. -/
def FuelWithin (S : Setting) (credit : Nat) (used used' : UInt64) : Prop :=
  min (used'.toNat + credit) (UInt64.size - 1) ≤ (1 + S.extra) * used.toNat + S.extra

theorem FuelWithin.mono {used used' : UInt64} (hle : c' ≤ c) (h : FuelWithin S c used used') :
    FuelWithin S c' used used' := by
  unfold FuelWithin at h ⊢
  omega

/-- Variables with values that agree, apart from some. -/
structure Scope.Agree (S : Setting) (P : Pairing) (hidden : String → Prop) (scope scope' : Scope) : Prop where
  values : ∀ x, ¬ hidden x → Option.Rel (Value.Agree S.labels P) (scope.get? x) (scope'.get? x)
  names : ∀ x, scope.get? x ≠ none → S.names x
  names' : ∀ x, scope'.get? x ≠ none → S.names x

/-- Scopes with variables that agree one by one, apart from some. -/
inductive Frames.Agree (S : Setting) (P : Pairing) : List (String → Prop) → List Scope → List Scope → Prop
  | nil : Frames.Agree S P [] [] []
  | cons {hidden : String → Prop} {rest : List (String → Prop)} {frame frame' : Scope} {frames frames' : List Scope}
    (h : frame.Agree S P hidden frame') (hrest : Frames.Agree S P rest frames frames') :
    Frames.Agree S P (hidden :: rest) (frame :: frames) (frame' :: frames')

/-- States of two runs that are alike. -/
structure State.Agree (S : Setting) (V : View) (P : Pairing) (credit : Nat) (s s' : State) : Prop where
  globals : s.globals.Agree S P V.globals s'.globals
  frames : Frames.Agree S P V.frames s.frames s'.frames
  heap : s.heap.Agree S.labels P s'.heap
  output : s'.output = s.output
  spent : s.used ≤ S.fuel
  fuel : FuelWithin S credit s.used s'.used

/-- The end of the first run and that of the second. -/
def EndsAlike (S : Setting) (post : α → β → State → State → Prop) :
    EStateM.Result Stop State α → EStateM.Result Stop State β → Prop
  | .ok a s, r' => ∃ a' s', r' = .ok a' s' ∧ post a a' s s'
  | .error e s, r' => S.faithful → e.isOutOfFuel = false →
    ∃ s', r' = .error e s' ∧ s'.output = s.output ∧ FuelWithin S 0 s.used s'.used

/-- From states in a relation, two actions lead to results and states in a relation. -/
def Alike (S : Setting) (pre : State → State → Prop) (post : α → β → State → State → Prop) (m : Exec α)
    (m' : Exec β) : Prop :=
  ∀ s s' : State, pre s s' → EndsAlike S post (m.run s) (m'.run s')

/-- From states that are alike with a credit of `c`, two actions lead to results that are related
and to states that are alike with a credit of `c'`, in which no lists are new that stand for each other. -/
def Step (S : Setting) (V : View) (P : Pairing) (c c' : Nat) (A : α → β → Prop) (m : Exec α) (m' : Exec β) :
    Prop :=
  Alike S (State.Agree S V P c) (fun a a' s s' => A a a' ∧ s.Agree S V P c' s') m m'

/-- The same where lists may be new. -/
def Sim (S : Setting) (V : View) (P : Pairing) (c c' : Nat) (A : Pairing → α → β → Prop) (m : Exec α)
    (m' : Exec β) : Prop :=
  Alike S (State.Agree S V P c) (fun a a' s s' => ∃ Q, P ≤ Q ∧ A Q a a' ∧ s.Agree S V Q c' s') m m'

variable {pre : State → State → Prop} {post : α → β → State → State → Prop} {A₀ : α → β → Prop}
  {A : Pairing → α → β → Prop} {B : Pairing → γ → δ → Prop} {m : Exec α} {m' : Exec β}

/-! ### Composed actions -/

theorem State.Agree.mono {s s' : State} (hle : c' ≤ c) (h : s.Agree S V P c s') : s.Agree S V P c' s' :=
  { h with fuel := h.fuel.mono hle }

theorem Scope.Agree.grow {hidden : String → Prop} {scope scope' : Scope}
    (hrel : ∀ r r', P.rel r r' → Q.rel r r') (h : scope.Agree S P hidden scope') :
    scope.Agree S Q hidden scope' := by
  refine { h with values := fun x hx => ?_ }
  have hvalues := h.values x hx
  revert hvalues
  generalize scope.get? x = found, scope'.get? x = found'
  rintro (hv | ⟨⟩)
  · exact .some (hv.grow hrel)
  · exact .none

theorem Frames.Agree.grow (hrel : ∀ r r', P.rel r r' → Q.rel r r') {hidden : List (String → Prop)}
    {frames frames' : List Scope} (h : Frames.Agree S P hidden frames frames') :
    Frames.Agree S Q hidden frames frames' := by
  induction h with
  | nil => exact .nil
  | cons h _ ih => exact .cons (h.grow hrel) ih

/-- Lists change, and with them which of them have partners. -/
theorem State.Agree.changeHeap {s s' : State} (h : s.Agree S V P c s') (hrel : ∀ r r', P.rel r r' → Q.rel r r')
    {heap heap' : Heap} (hheap : heap.Agree S.labels Q heap') :
    State.Agree S V Q c { s with heap } { s' with heap := heap' } :=
  ⟨h.globals.grow hrel, h.frames.grow hrel, hheap, h.output, h.spent, h.fuel⟩

theorem State.Agree.ends {s s' : State} (h : s.Agree S V P c s') :
    s'.output = s.output ∧ FuelWithin S 0 s.used s'.used :=
  ⟨h.output, h.fuel.mono (Nat.zero_le c)⟩

namespace Alike

protected theorem imp {post' : α → β → State → State → Prop} (h : Alike S pre post m m')
    (hpost : ∀ a a' s s', post a a' s s' → post' a a' s s') : Alike S pre post' m m' := by
  intro s s' hpre
  have hends := h s s' hpre
  cases hrun : m.run s with
  | error e t =>
    rw [hrun] at hends
    exact hends
  | ok a t =>
    rw [hrun] at hends
    obtain ⟨a', t', hrun', ha⟩ := hends
    exact ⟨a', t', hrun', hpost _ _ _ _ ha⟩

protected theorem pure {a : α} {b : β} (h : ∀ s s', pre s s' → post a b s s') : Alike S pre post (pure a) (pure b) :=
  fun s s' hpre => ⟨b, s', rfl, h s s' hpre⟩

protected theorem bind {mid : α → β → State → State → Prop} {post : γ → δ → State → State → Prop}
    {f : α → Exec γ} {f' : β → Exec δ} (h : Alike S pre mid m m')
    (hf : ∀ a a', Alike S (mid a a') post (f a) (f' a')) : Alike S pre post (m >>= f) (m' >>= f') := by
  intro s s' hpre
  have hm := h s s' hpre
  cases hrun : m.run s with
  | error e t =>
    rw [hrun] at hm
    rw [run_bind_error hrun]
    intro hfaithful he
    obtain ⟨t', hrun', hend⟩ := hm hfaithful he
    exact ⟨t', run_bind_error hrun', hend⟩
  | ok a t =>
    rw [hrun] at hm
    obtain ⟨a', t', hrun', ha⟩ := hm
    rw [run_bind_ok hrun, run_bind_ok hrun']
    exact hf a a' t t' ha

end Alike

namespace Step

protected theorem pure {a : α} {b : β} (h : A₀ a b) : Step S V P c c A₀ (pure a) (pure b) :=
  Alike.pure fun _ _ hagree => ⟨h, hagree⟩

/-- A step without new lists that stand for each other. -/
protected theorem sim (h : Step S V P c c' (A P) m m') : Sim S V P c c' A m m' :=
  Alike.imp h fun _ _ _ _ h => ⟨P, le_rfl, h⟩

protected theorem bind {f : α → Exec γ} {f' : β → Exec δ} (h : Step S V P c d A₀ m m')
    (hf : ∀ a a', A₀ a a' → Sim S V P d c' B (f a) (f' a')) : Sim S V P c c' B (m >>= f) (m' >>= f') :=
  Alike.bind h fun a a' s s' h => hf a a' h.1 s s' h.2

/-- A step after which comes another one. -/
protected theorem andThen {B₀ : γ → δ → Prop} {f : α → Exec γ} {f' : β → Exec δ} (h : Step S V P c d A₀ m m')
    (hf : ∀ a a', A₀ a a' → Step S V P d c' B₀ (f a) (f' a')) : Step S V P c c' B₀ (m >>= f) (m' >>= f') :=
  Alike.bind h fun a a' s s' h => hf a a' h.1 s s' h.2

protected theorem throw (e : Stop) : Step S V P c c' A₀ (throw e) (throw e) :=
  fun _ s' hagree _ _ => ⟨s', rfl, hagree.ends⟩

protected theorem raise (fault : Fault) : Step S V P c c' A₀ (raise fault) (raise fault) := .throw _

/-- What would come after an error does not matter. -/
protected theorem raise_bind {B₀ : γ → δ → Prop} (fault : Fault) (f : α → Exec γ) (f' : β → Exec δ) :
    Step S V P c c' B₀ (ProgramBreeding.raise fault >>= f) (ProgramBreeding.raise fault >>= f') :=
  fun _ s' hagree _ _ => ⟨s', rfl, hagree.ends⟩

/-- Both runs take the same way. -/
protected theorem ite {p p' : Prop} [Decidable p] [Decidable p'] (hp : p' ↔ p) {n : Exec α}
    {n' : Exec β} (h : p → Step S V P c c' A₀ m m') (h' : ¬ p → Step S V P c c' A₀ n n') :
    Step S V P c c' A₀ (if p then m else n) (if p' then m' else n') := by
  by_cases hyes : p
  · rw [if_pos hyes, if_pos (hp.mpr hyes)]
    exact h hyes
  · rw [if_neg hyes, if_neg fun hyes' => hyes (hp.mp hyes')]
    exact h' hyes

protected theorem ofExcept {x : Except Fault α} {y : Except Fault β} (h : Answers A₀ x y) :
    Step S V P c c A₀ (ofExcept x) (ofExcept y) := by
  cases h with
  | error fault => exact .raise fault
  | ok h => exact .pure h

protected theorem ofExcept_same (x : Except Fault α) : Step S V P c c Eq (ofExcept x) (ofExcept x) := by
  cases x with
  | error fault => exact .raise fault
  | ok a => exact .pure rfl

/-- A rule about values that gives the same answer in both runs. -/
protected theorem ofExcept_bind {B₀ : γ → δ → Prop} (x : Except Fault α) {f : α → Exec γ} {f' : α → Exec δ}
    (h : ∀ a, Step S V P c c' B₀ (f a) (f' a)) :
    Step S V P c c' B₀ (ProgramBreeding.ofExcept x >>= f) (ProgramBreeding.ofExcept x >>= f') :=
  (Step.ofExcept_same x).andThen fun a a' ha => by
    rw [← ha]
    exact h a

/-- Both runs change their states. -/
protected theorem modify {f f' : State → State}
    (h : ∀ s s', s.Agree S V P c s' → (f s).Agree S V P c (f' s')) :
    Step S V P c c (fun _ _ => True) (modify f) (modify f') :=
  fun s s' hagree => ⟨(), f' s', rfl, trivial, h s s' hagree⟩

/-- Both runs look at their states. -/
protected theorem get {B₀ : γ → δ → Prop} {f : State → Exec γ} {f' : State → Exec δ}
    (h : ∀ s s', s.Agree S V P c s' → Step S V P c c' B₀ (f s) (f' s')) :
    Step S V P c c' B₀ (MonadState.get >>= f) (MonadState.get >>= f') :=
  fun s s' hagree => h s s' hagree s s' hagree

end Step

namespace Sim

protected theorem pure {a : α} {b : β} (h : A P a b) : Sim S V P c c A (pure a) (pure b) :=
  (Step.pure h).sim

protected theorem bind {f : α → Exec γ} {f' : β → Exec δ} (h : Sim S V P c d A m m')
    (hf : ∀ Q, P ≤ Q → ∀ a a', A Q a a' → Sim S V Q d c' B (f a) (f' a')) :
    Sim S V P c c' B (m >>= f) (m' >>= f') := by
  refine Alike.bind h fun a a' s s' ⟨Q, hle, ha, hagree⟩ => ?_
  refine Alike.imp (hf Q hle a a' ha) (fun b b' t t' h => ?_) s s' hagree
  obtain ⟨R, hle', hb⟩ := h
  exact ⟨R, le_trans hle hle', hb⟩

/-- What is known of results need not be all that there is to know. -/
protected theorem imp {A' : Pairing → α → β → Prop} (h : Sim S V P c c' A m m')
    (hA : ∀ Q a a', A Q a a' → A' Q a a') : Sim S V P c c' A' m m' :=
  Alike.imp h fun a a' _ _ ⟨Q, hle, ha, hs⟩ => ⟨Q, hle, hA Q a a' ha, hs⟩

/-- Credit may go to waste. -/
protected theorem mono (hle : c' ≤ d) (h : Sim S V P c d A m m') : Sim S V P c c' A m m' :=
  Alike.imp h fun _ _ _ _ ⟨Q, hPQ, ha, hs⟩ => ⟨Q, hPQ, ha, hs.mono hle⟩

/-- There may be more credit than is needed. -/
protected theorem spare (hle : c ≤ d) (h : Sim S V P c c' A m m') : Sim S V P d c' A m m' :=
  fun s s' hagree => h s s' (hagree.mono hle)

protected theorem throw (e : Stop) : Sim S V P c c' A (throw e) (throw e) := (Step.throw e).sim

protected theorem raise (fault : Fault) : Sim S V P c c' A (raise fault) (raise fault) := .throw _

/-- What would come after an error does not matter. -/
protected theorem raise_bind (fault : Fault) (f : α → Exec γ) (f' : β → Exec δ) :
    Sim S V P c c' B (ProgramBreeding.raise fault >>= f) (ProgramBreeding.raise fault >>= f') :=
  (Step.raise_bind fault f f').sim

/-- Both runs take the same way. -/
protected theorem ite {p p' : Prop} [Decidable p] [Decidable p'] (hp : p' ↔ p) {n : Exec α}
    {n' : Exec β} (h : p → Sim S V P c c' A m m') (h' : ¬ p → Sim S V P c c' A n n') :
    Sim S V P c c' A (if p then m else n) (if p' then m' else n') := by
  by_cases hyes : p
  · rw [if_pos hyes, if_pos (hp.mpr hyes)]
    exact h hyes
  · rw [if_neg hyes, if_neg fun hyes' => hyes (hp.mp hyes')]
    exact h' hyes

/-- A rule about values that gives the same answer in both runs. -/
protected theorem ofExcept_bind (x : Except Fault α) {f : α → Exec γ} {f' : α → Exec δ}
    (h : ∀ a, Sim S V P c c' B (f a) (f' a)) : Sim S V P c c' B (ofExcept x >>= f) (ofExcept x >>= f') :=
  (Step.ofExcept_same x).bind fun a a' ha => by
    rw [← ha]
    exact h a

/-- Both runs look at their states. -/
protected theorem get {f : State → Exec γ} {f' : State → Exec δ}
    (h : ∀ s s', s.Agree S V P c s' → Sim S V P c c' B (f s) (f' s')) :
    Sim S V P c c' B (MonadState.get >>= f) (MonadState.get >>= f') :=
  fun s s' hagree => h s s' hagree s s' hagree

end Sim

/-! ### Fuel -/

/-- The first run spends fuel, and the second saves it. -/
protected theorem Alike.chargeLeft (units : UInt64)
    (h : Alike S (State.Agree S V P (c + (1 + S.extra) * units.toNat)) post m m') :
    Alike S (State.Agree S V P c) post (do charge S.budget units; m) m' := by
  intro s s' hagree
  have hcharge := charge_run S.fuel units s
  dsimp only at hcharge
  by_cases hfuel : S.fuel < saturatingAdd s.used units
  · rw [if_pos hfuel] at hcharge
    rw [run_bind_error hcharge]
    exact fun _ => nofun
  · rw [if_neg hfuel] at hcharge
    rw [run_bind_ok hcharge]
    refine h _ s' { hagree with spent := UInt64.not_lt.mp hfuel, fuel := ?_ }
    have hwithin := hagree.fuel
    unfold FuelWithin at hwithin ⊢
    rw [toNat_saturatingAdd]
    -- Both counters stop at the greatest word: below it the unit counts in full, at it the bound holds anyway.
    rcases Nat.le_total (s.used.toNat + units.toNat) (UInt64.size - 1) with hle | hle
    · rw [Nat.min_eq_left hle, Nat.mul_add]
      omega
    · have hsize : UInt64.size - 1 ≤ (1 + S.extra) * (UInt64.size - 1) :=
        Nat.le_mul_of_pos_left _ (Nat.lt_add_right _ Nat.one_pos)
      rw [Nat.min_eq_right hle]
      omega

/-- The second run spends fuel that it has saved. -/
protected theorem Alike.chargeRight (units : UInt64) (hunits : units.toNat ≤ c)
    (h : Alike S (State.Agree S V P (c - units.toNat)) post m m') :
    Alike S (State.Agree S V P c) post m (do charge S.budget' units; m') := by
  intro s s' hagree
  have hcharge := charge_run S.fuel' units s'
  have hwithin := hagree.fuel
  have hspent := Nat.mul_le_mul_left (1 + S.extra) (UInt64.le_iff_toNat_le.mp hagree.spent)
  have henough := S.enough
  have hsum := toNat_saturatingAdd s'.used units
  unfold FuelWithin at hwithin
  -- What the credit covers lies within what the second run is given.
  have hfuel : ¬ S.fuel' < saturatingAdd s'.used units := by
    rw [UInt64.lt_iff_toNat_lt, hsum]
    omega
  dsimp only at hcharge
  rw [if_neg hfuel] at hcharge
  rw [run_bind_ok hcharge]
  refine h s _ { hagree with fuel := ?_ }
  unfold FuelWithin
  rw [hsum]
  omega

namespace Step

/-- Both runs spend fuel, and the second may spend more later. -/
protected theorem earn (units : UInt64) : Step S V P c (c + S.extra * units.toNat) (fun _ _ => True)
    (charge S.budget units) (charge S.budget' units) := by
  rw [← bind_pure_unit (x := charge S.budget units), ← bind_pure_unit (x := charge S.budget' units)]
  refine Alike.chargeLeft units (.chargeRight units ?_ (.pure fun _ _ hagree => ⟨trivial, hagree.mono ?_⟩))
  all_goals
    rw [Nat.add_mul]
    omega

/-- Both runs spend the same fuel. -/
protected theorem charge (units : UInt64) : Step S V P c c (fun _ _ => True) (charge S.budget units)
    (charge S.budget' units) :=
  Alike.imp (Step.earn units) fun _ _ _ _ h => ⟨trivial, h.2.mono (Nat.le_add_right ..)⟩

end Step

namespace Sim

/-- The first run spends fuel, and the second saves it. -/
protected theorem chargeLeft (units : UInt64) (h : Sim S V P (c + (1 + S.extra) * units.toNat) c' A m m') :
    Sim S V P c c' A (do charge S.budget units; m) m' :=
  Alike.chargeLeft units h

/-- The second run spends fuel that it has saved. -/
protected theorem chargeRight (units : UInt64) (hunits : units.toNat ≤ c)
    (h : Sim S V P (c - units.toNat) c' A m m') : Sim S V P c c' A m (do charge S.budget' units; m') :=
  Alike.chargeRight units hunits h

end Sim

/-! ### Lists -/

theorem Heap.items_push (heap : Heap) (items : Array Value) (r : Ref) :
    Heap.items (heap.push items) r = if r = heap.size then items else heap.items r := by
  simp only [Heap.items, Array.getD_eq_getD_getElem?, Array.getElem?_push]
  split <;> rfl

theorem Heap.items_modify (heap : Heap) (f : Array Value → Array Value) (r q : Ref) :
    Heap.items (heap.modify r f) q = if q = r ∧ r < heap.size then f (heap.items r) else heap.items q := by
  simp only [Heap.items, Array.getD_eq_getD_getElem?, Array.getElem?_modify]
  by_cases hq : q = r
  · subst hq
    by_cases hlt : q < heap.size
    · rw [if_pos rfl, if_pos ⟨rfl, hlt⟩, Array.getElem?_eq_getElem hlt]
      rfl
    · rw [if_pos rfl, if_neg fun h => hlt h.2, Array.getElem?_eq_none (Nat.not_lt.mp hlt)]
      rfl
  · rw [if_neg fun h => hq h.symm, if_neg fun h => hq h.1]

/-- Two more lists stand for each other, neither of which had a partner. -/
def Pairing.pair (P : Pairing) (n n' : Ref) (h : ∀ r r', P.rel r r' → r ≠ n ∧ r' ≠ n') : Pairing where
  rel r r' := P.rel r r' ∨ r = n ∧ r' = n'
  unique := by
    rintro r r' q q' (hr | ⟨rfl, rfl⟩) (hq | ⟨rfl, rfl⟩)
    · exact P.unique hr hq
    · exact iff_of_false (h _ _ hr).1 (h _ _ hr).2
    · exact iff_of_false (h _ _ hq).1.symm (h _ _ hq).2.symm
    · exact iff_of_true rfl rfl
  kept r := if r = n then none else P.kept r

theorem Pairing.le_pair {n n' : Ref} (h : ∀ r r', P.rel r r' → r ≠ n ∧ r' ≠ n') (hkept : P.kept n = none) :
    P ≤ P.pair n n' h := by
  refine ⟨fun _ _ => .inl, fun r items hr => ?_⟩
  show (if r = n then none else P.kept r) = some items
  rw [if_neg]
  · exact hr
  · rintro rfl
    exact nomatch hkept.symm.trans hr

section

variable {L : Labelling} {heap heap' : Heap} {items items' : Array Value} {v v' : Value}

/-- New lists have no partners yet. -/
theorem Heap.Agree.fresh (h : heap.Agree L P heap') {r r' : Ref} (hr : P.rel r r') :
    r ≠ heap.size ∧ r' ≠ heap'.size :=
  ⟨Nat.ne_of_lt (h.lt hr).1, Nat.ne_of_lt (h.lt hr).2⟩

theorem Heap.Agree.kept_size (h : heap.Agree L P heap') : P.kept heap.size = none :=
  Option.eq_none_iff_forall_not_mem.mpr fun _ hkept => Nat.lt_irrefl _ (h.kept hkept).1

/-- A new list of each heap. -/
theorem Heap.Agree.push (h : heap.Agree L P heap') (hitems : Values.Agree L P items.toList items'.toList) :
    Heap.Agree L (P.pair heap.size heap'.size fun _ _ => h.fresh) (heap.push items) (heap'.push items') := by
  have hle := Pairing.le_pair (fun _ _ => h.fresh) h.kept_size
  refine ⟨?_, ?_, ?_⟩
  · rintro r r' (hr | ⟨rfl, rfl⟩)
    · rw [Array.size_push, Array.size_push]
      exact ⟨Nat.lt_succ_of_lt (h.lt hr).1, Nat.lt_succ_of_lt (h.lt hr).2⟩
    · rw [Array.size_push, Array.size_push]
      exact ⟨Nat.lt_succ_self _, Nat.lt_succ_self _⟩
  · rintro r r' (hr | ⟨rfl, rfl⟩)
    · rw [Heap.items_push, Heap.items_push, if_neg (h.fresh hr).1, if_neg (h.fresh hr).2]
      exact (h.items hr).mono hle
    · rw [Heap.items_push, Heap.items_push, if_pos rfl, if_pos rfl]
      exact hitems.mono hle
  · intro r kept hkept
    obtain ⟨hne, hkept⟩ : r ≠ heap.size ∧ P.kept r = some kept := by simpa [Pairing.pair] using hkept
    obtain ⟨hlt, hitems, hfree⟩ := h.kept hkept
    refine ⟨by rw [Array.size_push]; exact Nat.lt_succ_of_lt hlt, ?_, ?_⟩
    · rw [Heap.items_push, if_neg hne, hitems]
    · rintro r' (hr | ⟨rfl, -⟩)
      · exact hfree _ hr
      · exact hne rfl

/-- Lists that change alike. -/
theorem Heap.Agree.modify (h : heap.Agree L P heap') {r r' : Ref} (hr : P.rel r r')
    {f f' : Array Value → Array Value}
    (hf : Values.Agree L P (f (heap.items r)).toList (f' (heap'.items r')).toList) :
    Heap.Agree L P (heap.modify r f) (heap'.modify r' f') where
  lt hq := by
    rw [Array.size_modify, Array.size_modify]
    exact h.lt hq
  items {q q'} hq := by
    rw [Heap.items_modify, Heap.items_modify]
    by_cases hsame : q = r
    · rw [if_pos ⟨hsame, (h.lt hr).1⟩, if_pos ⟨(P.unique hq hr).mp hsame, (h.lt hr).2⟩]
      exact hf
    · rw [if_neg fun hand => hsame hand.1, if_neg fun hand => hsame ((P.unique hq hr).mpr hand.1)]
      exact h.items hq
  kept {q items} hkept := by
    obtain ⟨hlt, hitems, hfree⟩ := h.kept hkept
    refine ⟨by rwa [Array.size_modify], ?_, hfree⟩
    rw [Heap.items_modify, if_neg, hitems]
    rintro ⟨rfl, -⟩
    exact hfree _ hr

theorem values_agree_str (texts : List String) :
    Values.Agree L P (texts.map Value.str) (texts.map Value.str) := by
  induction texts with
  | nil => exact .nil
  | cons text _ ih => exact .cons (.str text) ih

/-- Lists of values that agree are equally long. -/
theorem Values.Agree.size_eq (h : Values.Agree L P items.toList items'.toList) : items'.size = items.size := by
  simpa using h.length_eq.symm

end

section

variable {items items' : Array Value} {v v' : Value} {r r' : Ref}

protected theorem Sim.newList (hitems : Values.Agree S.labels P items.toList items'.toList) :
    Sim S V P c c (Value.Agree S.labels) (newList items) (newList items') := by
  intro s s' hagree
  have hle := Pairing.le_pair (fun _ _ => hagree.heap.fresh) hagree.heap.kept_size
  refine ⟨.list s'.heap.size, { s' with heap := s'.heap.push items' }, rfl,
    P.pair s.heap.size s'.heap.size fun _ _ => hagree.heap.fresh, hle, .list (.inr ⟨rfl, rfl⟩),
    hagree.changeHeap hle.1 (hagree.heap.push hitems)⟩

namespace Step

protected theorem updateList (hr : P.rel r r') {f f' : Array Value → Array Value}
    (hf : ∀ items items' : Array Value, Values.Agree S.labels P items.toList items'.toList →
      Values.Agree S.labels P (f items).toList (f' items').toList) :
    Step S V P c c (fun _ _ => True) (updateList r f) (updateList r' f') :=
  .modify fun _ _ hagree => { hagree with heap := hagree.heap.modify hr (hf _ _ (hagree.heap.items hr)) }

protected theorem itemsOf (hr : P.rel r r') : Step S V P c c
    (fun items items' => Values.Agree S.labels P items.toList items'.toList) (itemsOf r) (itemsOf r') :=
  .get fun _ _ hagree => .pure (hagree.heap.items hr)

protected theorem iterate (h : v.Agree S.labels P v') : Step S V P c c
    (fun items items' => Values.Agree S.labels P items.toList items'.toList) (iterate v) (iterate v') := by
  cases h with
  | list hr => exact .itemsOf hr
  | str text =>
    refine .pure ?_
    rw [List.toList_toArray]
    simpa using values_agree_str (text.toList.map fun c => c.toString)
  | _ => exact .raise _

protected theorem truth (h : v.Agree S.labels P v') : Step S V P c c Eq (truth v) (truth v') :=
  .get fun _ _ hagree => .pure (h.isTruthy_eq hagree.heap)

protected theorem writeLine (line : String) :
    Step S V P c c (fun _ _ => True) (writeLine line) (writeLine line) := by
  refine .modify fun s s' hagree => ?_
  rw [hagree.output]
  split
  · exact { hagree with output := by dsimp only }
  · exact hagree

end Step

end

/-! ### Variables -/

section

variable {hidden hidden' : String → Prop} {scope scope' : Scope} {found found' : Option Value}

/-- A variable that may differ is given values that agree, or another one comes to differ. -/
theorem Scope.Agree.reveal (h : scope.Agree S P hidden scope') (x : String)
    (hle : ∀ y, hidden y → y = x ∨ hidden' y)
    (hfound : ¬ hidden' x → Option.Rel (Value.Agree S.labels P) found found')
    (hleft : found ≠ none → S.names x) (hright : found' ≠ none → S.names x) :
    (scope.put x found).Agree S P hidden' (scope'.put x found') where
  values y hy := by
    rw [Scope.get?_put, Scope.get?_put]
    split
    · rename_i hyx
      exact hfound (hyx ▸ hy)
    · rename_i hyx
      exact h.values y fun hhidden => (hle y hhidden).elim hyx hy
  names y := by
    rw [Scope.get?_put]
    split
    · rename_i hyx
      exact hyx ▸ hleft
    · exact h.names y
  names' y := by
    rw [Scope.get?_put]
    split
    · rename_i hyx
      exact hyx ▸ hright
    · exact h.names' y

/-- Where some variables may differ, the others do not matter. -/
theorem Scope.Agree.put (h : scope.Agree S P hidden scope') (x : String)
    (hfound : ¬ hidden x → Option.Rel (Value.Agree S.labels P) found found')
    (hleft : found ≠ none → S.names x) (hright : found' ≠ none → S.names x) :
    (scope.put x found).Agree S P hidden (scope'.put x found') :=
  h.reveal x (fun _ => .inr) hfound hleft hright

theorem Scope.agree_zip {vs vs' : List Value} (h : Values.Agree S.labels P vs vs') {params : List String}
    (hparams : ∀ x ∈ params, S.names x) : Scope.Agree S P hidden (params.zip vs) (params.zip vs') := by
  have hnames (vs : List Value) (x : String) (hx : Scope.get? (params.zip vs) x ≠ none) : S.names x := by
    obtain ⟨v, hv⟩ := Option.ne_none_iff_exists'.mp hx
    obtain ⟨before, after, heq, -⟩ := List.lookup_eq_some_iff.mp hv
    have hmem : (x, v) ∈ params.zip vs := by simp [heq]
    exact hparams x (List.of_mem_zip hmem).1
  refine ⟨fun x _ => ?_, hnames vs, hnames vs'⟩
  clear hnames hparams
  induction params generalizing vs vs' with
  | nil => exact .none
  | cons param params ih =>
    cases h with
    | nil => exact .none
    | cons hv hvs =>
      rw [List.zip_cons_cons, List.zip_cons_cons, Scope.get?_cons, Scope.get?_cons]
      split
      · exact .some hv
      · exact ih hvs

end

section

variable {s s' : State} {hidden : String → Prop}

theorem State.Agree.scope (h : s.Agree S V P c s') : s.scope.Agree S P V.top s'.scope := by
  have hframes := h.frames
  unfold State.scope View.top
  generalize s.frames = frames, s'.frames = frames', V.frames = rest at hframes
  cases hframes with
  | nil => exact h.globals
  | cons hframe _ => exact hframe

/-- The open scope changes, and with it what may be different there. -/
theorem State.Agree.changeScope (h : s.Agree S V P c s') {f f' : Scope → Scope}
    (hf : (f s.scope).Agree S P hidden (f' s'.scope)) :
    (s.updateScope f).Agree S (V.withTop hidden) P c (s'.updateScope f') := by
  obtain ⟨globals, frames, heap, used, nextPoll, output⟩ := s
  obtain ⟨globals', frames', heap', used', nextPoll', output'⟩ := s'
  obtain ⟨Vglobals, Vframes⟩ := V
  obtain ⟨hglobals, hframes, hheap, houtput, hspent, hfuel⟩ := h
  dsimp only at hglobals hframes hheap houtput hspent hfuel
  cases hframes with
  | nil => exact ⟨hf, .nil, hheap, houtput, hspent, hfuel⟩
  | cons hframe hrest => exact ⟨hglobals, .cons hf hrest, hheap, houtput, hspent, hfuel⟩

theorem State.Agree.updateScope (h : s.Agree S V P c s') {f f' : Scope → Scope}
    (hf : ∀ scope scope' : Scope, scope.Agree S P V.top scope' → (f scope).Agree S P V.top (f' scope')) :
    (s.updateScope f).Agree S V P c (s'.updateScope f') := by
  simpa using h.changeScope (hf _ _ h.scope)

theorem State.Agree.lookup (h : s.Agree S V P c s') {x : String} (hx : ¬ V.Hides x) :
    Option.Rel (Value.Agree S.labels P) (s.lookup x) (s'.lookup x) := by
  obtain ⟨hglobals, htop⟩ := not_or.mp hx
  have hglobal := h.globals.values x hglobals
  have hframe : Option.Rel (Value.Agree S.labels P) (s.frames.head?.bind fun frame => frame.get? x)
      (s'.frames.head?.bind fun frame => frame.get? x) := by
    have hframes := h.frames
    unfold View.top at htop
    generalize s.frames = frames, s'.frames = frames', V.frames = rest at hframes htop
    cases hframes with
    | nil => exact .none
    | cons hframe _ => exact hframe.values x htop
  unfold State.lookup
  revert hframe hglobal
  generalize s.globals.get? x = global, s'.globals.get? x = global'
  generalize (s.frames.head?.bind fun frame => frame.get? x) = frame,
    (s'.frames.head?.bind fun frame => frame.get? x) = frame'
  rintro (hglobal | ⟨⟩) (hframe | ⟨⟩)
  -- A frame hides the module, and the module hides what is built in.
  · exact .some hframe
  · exact .some hglobal
  · exact .some hframe
  · cases Builtin.ofName? x with
    | none => exact .none
    | some b => exact .some (.builtin b)

/-- Both runs end in the same way, and something is done in the end. -/
theorem EndsAlike.endIn {post post' : α → β → State → State → Prop} {f f' : State → State}
    {r : EStateM.Result Stop State α} {r' : EStateM.Result Stop State β} (h : EndsAlike S post r r')
    (hf : ∀ a a' s s', post a a' s s' → post' a a' (f s) (f' s'))
    (hleft : ∀ s, (f s).output = s.output ∧ (f s).used = s.used)
    (hright : ∀ s, (f' s).output = s.output ∧ (f' s).used = s.used) :
    EndsAlike S post' (ProgramBreeding.endIn f r) (ProgramBreeding.endIn f' r') := by
  cases r with
  | ok a s =>
    obtain ⟨a', s', rfl, ha⟩ := h
    exact ⟨a', f' s', rfl, hf _ _ s s' ha⟩
  | error e s =>
    intro hfaithful he
    obtain ⟨s', rfl, houtput, hfuel⟩ := h hfaithful he
    refine ⟨f' s', rfl, ?_, ?_⟩
    · rw [(hleft s).1, (hright s').1, houtput]
    · rwa [(hleft s).2, (hright s').2]

end

section

variable {v v' : Value} {x : String} {hidden : String → Prop}

namespace Step

protected theorem setVar (hx : S.names x) (h : v.Agree S.labels P v') :
    Step S V P c c (fun _ _ => True) (setVar x v) (setVar x v') :=
  .modify fun _ _ hagree => hagree.updateScope fun _ _ hscope =>
    hscope.put x (fun _ => .some h) (fun _ => hx) fun _ => hx

protected theorem getVar (hx : ¬ V.Hides x) :
    Step S V P c c (Value.Agree S.labels P) (getVar x) (getVar x) := by
  refine .get fun s s' hagree => ?_
  have hlookup := hagree.lookup hx
  revert hlookup
  generalize s.lookup x = found, s'.lookup x = found'
  rintro (hv | ⟨⟩)
  · exact .pure hv
  · exact .raise _

end Step

namespace Sim

protected theorem shielding (x : String) (h : Sim S V P c c' A m m') :
    Sim S V P c c' A (shielding x m) (shielding x m') := by
  intro s s' hagree
  rw [shielding_run, shielding_run]
  have hfree := hagree.updateScope fun _ _ hscope =>
    hscope.put x (fun _ => .none) (absurd rfl) (absurd rfl)
  refine (h _ _ hfree).endIn (fun a a' t t' => ?_) (fun t => ⟨t.updateScope_output _, t.updateScope_used _⟩)
    fun t => ⟨t.updateScope_output _, t.updateScope_used _⟩
  rintro ⟨Q, hle, ha, ht⟩
  have hscope := hagree.scope.grow hle.1
  refine ⟨Q, hle, ha, ht.updateScope fun _ _ hopen => ?_⟩
  exact hopen.put x (hscope.values x) (hscope.names x) (hscope.names' x)

protected theorem inFrame {frame frame' : Scope} (hframe : frame.Agree S P hidden frame')
    (h : Sim S (V.push hidden) P c c' A m m') : Sim S V P c c' A (inFrame frame m) (inFrame frame' m') := by
  intro s s' hagree
  rw [inFrame_run, inFrame_run]
  have hinner : State.Agree S (V.push hidden) P c { s with frames := frame :: s.frames }
      { s' with frames := frame' :: s'.frames } :=
    { hagree with frames := .cons hframe hagree.frames }
  refine (h _ _ hinner).endIn (fun a a' t t' => ?_) (fun _ => ⟨rfl, rfl⟩) fun _ => ⟨rfl, rfl⟩
  rintro ⟨Q, hle, ha, ht⟩
  refine ⟨Q, hle, ha, { ht with frames := ?_ }⟩
  have hframes := ht.frames
  unfold State.leaveFrame View.push at *
  generalize t.frames = frames, t'.frames = frames' at hframes
  cases hframes with
  | cons _ hrest => exact hrest

end Sim

end

/-! ### Loops -/

/-- Ends of statements that are alike. -/
inductive Flow.Agree (L : Labelling) (P : Pairing) : Flow → Flow → Prop
  | next : Agree L P .next .next
  | ret {v v' : Value} (h : v.Agree L P v') : Agree L P (.ret v) (.ret v')
  | brk : Agree L P .brk .brk
  | cont : Agree L P .cont .cont

theorem Flow.Agree.result {L : Labelling} {flow flow' : Flow} (h : flow.Agree L P flow') :
    flow.result.Agree L P flow'.result := by
  cases h with
  | ret h => exact h
  | _ => exact .none

namespace Sim

variable {cond cond' : Option (Exec Value)} {element element' test test' : Exec Value}
  {body body' : Exec Flow} {found found' items items' : List Value} {v v' : Value} {x : String}

protected theorem collect (hx : S.names x)
    (hcond : Option.Rel (fun m m' => ∀ P c, Sim S V P c c (Value.Agree S.labels) m m') cond cond')
    (helement : ∀ P c, Sim S V P c c (Value.Agree S.labels) element element')
    (hfound : Values.Agree S.labels P found found') (hitems : Values.Agree S.labels P items items') :
    Sim S V P c c (Values.Agree S.labels) (collect S.budget x cond element found items)
      (collect S.budget' x cond' element' found' items') := by
  induction items generalizing P found found' items' with
  | nil =>
    cases hitems
    exact .pure (hfound.reverse)
  | cons item rest ih =>
    obtain ⟨item', rest', hitem, hrest, rfl⟩ := List.forall₂_cons_left_iff.mp hitems
    refine (Step.charge 1).bind fun _ _ _ => (Step.setVar hx hitem).bind fun _ _ _ => ?_
    -- With or without a condition, it comes down to whether the item is wanted.
    have hwanted (Q : Pairing) (hle : P ≤ Q) (wanted : Bool) : Sim S V Q c c (Values.Agree S.labels)
        (if wanted then do
          let v ← element
          ProgramBreeding.collect S.budget x cond element (v :: found) rest
        else ProgramBreeding.collect S.budget x cond element found rest)
        (if wanted then do
          let v ← element'
          ProgramBreeding.collect S.budget' x cond' element' (v :: found') rest'
        else ProgramBreeding.collect S.budget' x cond' element' found' rest') := by
      refine .ite .rfl (fun _ => (helement Q c).bind fun R hle' _ _ hv => ?_) fun _ => ?_
      · exact ih (.cons hv (hfound.mono (le_trans hle hle'))) (Values.Agree.mono (le_trans hle hle') hrest)
      · exact ih (hfound.mono hle) (Values.Agree.mono hle hrest)
    cases hcond with
    | none => exact hwanted P le_rfl true
    | some h =>
      refine (h P c).bind fun Q hle _ _ hv => (Step.truth hv).bind fun b b' hb => ?_
      rw [← hb]
      exact hwanted Q hle b

protected theorem runComprehension (hx : S.names x)
    (hcond : Option.Rel (fun m m' => ∀ P c, Sim S V P c c (Value.Agree S.labels) m m') cond cond')
    (helement : ∀ P c, Sim S V P c c (Value.Agree S.labels) element element') (h : v.Agree S.labels P v') :
    Sim S V P c c (Value.Agree S.labels) (runComprehension S.budget x cond element v)
      (runComprehension S.budget' x cond' element' v') :=
  (Step.iterate h).bind fun _ _ hitems =>
    (Sim.shielding x (.collect hx hcond helement .nil hitems)).bind fun _ _ _ _ hfound => .newList hfound

/-- Every round pays for what its body may spend more. -/
protected theorem forRounds (hx : S.names x)
    (hbody : ∀ P c, Sim S V P (c + S.extra) c (Flow.Agree S.labels) body body')
    (hitems : Values.Agree S.labels P items items') :
    Sim S V P c c (Flow.Agree S.labels) (forRounds S.budget x body items) (forRounds S.budget' x body' items') := by
  induction items generalizing P items' with
  | nil =>
    cases hitems
    exact .pure .next
  | cons item rest ih =>
    obtain ⟨item', rest', hitem, hrest, rfl⟩ := List.forall₂_cons_left_iff.mp hitems
    refine (Step.earn 1).bind fun _ _ _ => (Step.setVar hx hitem).bind fun _ _ _ => ?_
    refine Sim.bind (d := c) (by simpa using hbody P c) fun Q hle flow flow' hflow => ?_
    cases hflow with
    | brk => exact .pure .next
    | ret hv => exact .pure (.ret hv)
    | next => exact ih (Values.Agree.mono hle hrest)
    | cont => exact ih (Values.Agree.mono hle hrest)

/-- By induction on the rounds that the first run may still make; the second may make as many. -/
protected theorem whileRounds (htest : ∀ P c, Sim S V P c c (Value.Agree S.labels) test test')
    (hbody : ∀ P c, Sim S V P (c + S.extra) c (Flow.Agree S.labels) body body') {count count' : Nat}
    (hcount : count ≤ count') :
    Sim S V P c c (Flow.Agree S.labels) (whileRounds S.budget test body count)
      (whileRounds S.budget' test' body' count') := by
  induction count generalizing P count' with
  -- Without rounds the first run is out of fuel, and nothing is claimed.
  | zero => exact fun _ _ _ _ => nofun
  | succ count ih =>
    obtain ⟨count', rfl⟩ := Nat.exists_eq_succ_of_ne_zero (Nat.ne_zero_of_lt hcount)
    refine (Step.earn 1).bind fun _ _ _ => (htest P _).bind fun Q _ v v' hv => ?_
    refine (Step.truth hv).bind fun b b' hb => ?_
    rw [← hb]
    refine .ite .rfl (fun _ => ?_) fun _ => ?_
    · refine Sim.bind (d := c) (by simpa using hbody Q c) fun R _ flow flow' hflow => ?_
      cases hflow with
      | brk => exact .pure .next
      | ret hv => exact .pure (.ret hv)
      | next => exact ih (Nat.le_of_succ_le_succ hcount)
      | cont => exact ih (Nat.le_of_succ_le_succ hcount)
    · exact Sim.mono (Nat.le_add_right ..) (.pure .next)

end Sim

end ProgramBreeding

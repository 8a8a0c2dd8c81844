import ProgramBreeding.Proofs.Execution.Simulation

/-!
# What actions leave alone

Most steps of a run only look at its state and spend fuel.  A method does so until nothing can go wrong any
more, and then makes its only change.

## Main definitions

* `State.SameButMeter` — states that differ in the fuel spent and in the mark of the next look at most.
* `State.SameButList` — states that differ in one list besides, and in lists that are new.
* `Inspects` — actions that change the meter at most, whether they stop or not.
* `Commits` — actions that change one list at most, and no list if they stop.
* `callMethod_commits` — methods, whatever they are called on and with.

## Design notes

`Commits` is not closed under composition: once a list has changed, nothing may stop any more.  So the rule
for a composed action, `Inspects.commits`, asks of its first part that it inspects only.
-/

namespace ProgramBreeding

variable {α β : Type}

/-- States that differ in the meter at most. -/
def State.SameButMeter (s t : State) : Prop :=
  t = { s with used := t.used, nextPoll := t.nextPoll }

/-- States that differ in the meter, in the list of a receiver and in lists that are new. -/
structure State.SameButList (receiver : Value) (s t : State) : Prop where
  frame : t = { s with heap := t.heap, used := t.used, nextPoll := t.nextPoll }
  grows : s.heap.size ≤ t.heap.size
  items : ∀ ref < s.heap.size, receiver ≠ .list ref → t.heap.items ref = s.heap.items ref

namespace State

variable {s t u : State} {receiver : Value}

namespace SameButMeter

protected theorem rfl : s.SameButMeter s := Eq.refl s

theorem of_meter (used nextPoll : UInt64) : s.SameButMeter { s with used, nextPoll } := Eq.refl _

theorem trans (h : s.SameButMeter t) (h' : t.SameButMeter u) : s.SameButMeter u := by
  unfold SameButMeter at h h' ⊢
  rw [h', h]

theorem heap_eq (h : s.SameButMeter t) : t.heap = s.heap := by
  unfold SameButMeter at h
  rw [h]

theorem sameButList (h : s.SameButMeter t) : s.SameButList receiver t where
  frame := by
    unfold SameButMeter at h
    rw [h]
  grows := Nat.le_of_eq (by rw [h.heap_eq])
  items _ _ _ := by rw [h.heap_eq]

end SameButMeter

theorem SameButList.after (h : s.SameButMeter t) (h' : t.SameButList receiver u) :
    s.SameButList receiver u where
  frame := by
    have hframe := h'.frame
    unfold SameButMeter at h
    rw [hframe, h]
  grows := h.heap_eq ▸ h'.grows
  items ref hsize hne := by
    rw [← h.heap_eq] at hsize ⊢
    exact h'.items ref hsize hne

theorem SameButList.push (items : Array Value) :
    s.SameButList receiver { s with heap := s.heap.push items } where
  frame := rfl
  grows := by
    rw [Array.size_push]
    exact Nat.le_succ _
  items ref hsize _ := by rw [Heap.items_push, if_neg (Nat.ne_of_lt hsize)]

theorem SameButList.modify (ref : Ref) (f : Array Value → Array Value) :
    s.SameButList (.list ref) { s with heap := s.heap.modify ref f } where
  frame := rfl
  grows := Nat.le_of_eq Array.size_modify.symm
  items other _ hne := by
    rw [Heap.items_modify, if_neg]
    rintro ⟨rfl, -⟩
    exact hne rfl

end State

/-! ### Actions that inspect -/

/-- An action that changes the meter at most, whether it stops or not. -/
structure Inspects (m : Exec α) : Prop where
  ends : Leads State.SameButMeter m

namespace Inspects

theorem sameButMeter {m : Exec α} (hm : Inspects m) {s t : State} {a : α} (h : m.run s = .ok a t) :
    s.SameButMeter t := by
  have hs := hm.ends s
  rw [h] at hs
  exact hs

protected theorem pure (a : α) : Inspects (pure a) := ⟨fun _ => .rfl⟩

protected theorem raise (fault : Fault) : Inspects (raise fault : Exec α) := ⟨fun _ => .rfl⟩

protected theorem get : Inspects (get : Exec State) := ⟨fun _ => .rfl⟩

protected theorem bind {m : Exec α} {f : α → Exec β} (hm : Inspects m) (hf : ∀ a, Inspects (f a)) :
    Inspects (m >>= f) :=
  ⟨.bind (fun _ _ _ => .trans) hm.ends fun a => (hf a).ends⟩

protected theorem ofExcept (x : Except Fault α) : Inspects (ofExcept x) := by
  cases x with
  | ok a => exact .pure a
  | error fault => exact .raise fault

protected theorem charge (budget : Budget) (units : UInt64) : Inspects (charge budget units) := by
  refine ⟨fun s => ?_⟩
  obtain ⟨nextPoll, hend⟩ := endState_charge budget units s
  rw [hend]
  exact .of_meter _ _

protected theorem itemsOf (ref : Ref) : Inspects (itemsOf ref) := ⟨fun _ => .rfl⟩

protected theorem iterate (v : Value) : Inspects (iterate v) := by
  cases v with
  | list ref => exact .itemsOf ref
  | str text => exact .pure _
  | _ => exact .raise _

protected theorem countValue (n : Nat) : Inspects (countValue n) := by
  unfold countValue
  split
  · exact .pure _
  · exact .raise _

protected theorem requireCount (name : String) (args : List Value) (least greatest : Nat) :
    Inspects (requireCount name args least greatest) := by
  unfold requireCount
  split
  · exact .pure _
  · split
    · exact .raise _
    · exact .raise _

protected theorem soleArgument (method : String) (args : List Value) :
    Inspects (soleArgument method args) :=
  .bind (.requireCount ..) fun _ => .pure _

protected theorem requireNone (method : String) (args : List Value) :
    Inspects (requireNone method args) :=
  .requireCount ..

protected theorem boundedText (text : String) : Inspects (boundedText text) := by
  unfold boundedText
  split
  · exact .raise _
  · exact .pure _

end Inspects

/-! ### Actions that change one list -/

/-- How an action has ended that changes the list of its receiver at most, and no list if it stops. -/
inductive Settled (receiver : Value) (s : State) : EStateM.Result Stop State α → Prop
  | done {a : α} {t : State} (h : s.SameButList receiver t) : Settled receiver s (.ok a t)
  | undone {e : Stop} {t : State} (h : s.SameButMeter t) : Settled receiver s (.error e t)

/-- An action that changes the list of its receiver at most, and no list if it stops. -/
structure Commits (receiver : Value) (m : Exec α) : Prop where
  settled : ∀ s : State, Settled receiver s (m.run s)

variable {receiver : Value} {m n : Exec α}

/-- First it is looked whether anything can go wrong. -/
theorem Inspects.commits {f : α → Exec β} (hm : Inspects m) (hf : ∀ a, Commits receiver (f a)) :
    Commits receiver (m >>= f) := by
  refine ⟨fun s => ?_⟩
  have hs := hm.ends s
  cases hrun : m.run s with
  | error e t =>
    rw [hrun] at hs
    rw [run_bind_error hrun]
    exact .undone hs
  | ok a t =>
    rw [hrun] at hs
    rw [run_bind_ok hrun]
    have hrest := (hf a).settled t
    generalize (f a).run t = r at hrest
    cases hrest with
    | done h => exact .done (.after hs h)
    | undone h => exact .undone (hs.trans h)

namespace Commits

/-- An action that inspects only has nothing to undo. -/
theorem of_inspects (h : Inspects m) : Commits receiver m := by
  refine ⟨fun s => ?_⟩
  have hs := h.ends s
  generalize m.run s = r at hs
  cases r with
  | ok a t => exact .done (State.SameButMeter.sameButList hs)
  | error e t => exact .undone hs

protected theorem raise (fault : Fault) : Commits receiver (raise fault : Exec α) :=
  of_inspects (.raise fault)

/-- What comes after a check. -/
protected theorem guarded {p : Prop} [Decidable p] {fault : Fault} {f : PUnit → Exec α}
    (hm : Commits receiver m) : Commits receiver (if p then raise fault >>= f else m) := by
  split
  · exact ⟨fun s => .undone .rfl⟩
  · exact hm

protected theorem newList (items : Array Value) : Commits receiver (newList items) :=
  ⟨fun _ => .done (.push items)⟩

/-- The change comes last. -/
protected theorem updateList (ref : Ref) (f : Array Value → Array Value) (a : α) :
    Commits (.list ref) (do updateList ref f; return a) :=
  ⟨fun _ => .done (.modify ref f)⟩

/-! ### Methods -/

variable (budget : Budget) (method : String) (args : List Value)

protected theorem callListMethod (ref : Ref) :
    Commits (.list ref) (callListMethod budget ref method args) := by
  refine Inspects.commits (.itemsOf ref) fun items => ?_
  dsimp only
  split
  · -- append
    refine Inspects.commits (.soleArgument ..) fun v => Inspects.commits (.charge ..) fun _ => ?_
    exact .guarded (.updateList ..)
  · -- extend
    refine Inspects.commits (.soleArgument ..) fun v => Inspects.commits (.iterate v) fun extra => ?_
    refine Inspects.commits (.charge ..) fun _ => ?_
    exact .guarded (.updateList ..)
  · -- pop
    refine Inspects.commits (.requireCount ..) fun _ => Inspects.commits (.charge ..) fun _ => ?_
    have hpop (position : Nat) : Commits (.list ref) (do
        let v := (← itemsOf ref).getD position .none
        updateList ref fun items => items.eraseIdxIfInBounds position
        return v) :=
      Inspects.commits (.itemsOf ref) fun _ => .updateList ..
    apply Commits.guarded
    cases args with
    | nil => exact Inspects.commits (.pure _) hpop
    | cons index rest => exact Inspects.commits (.ofExcept _) hpop
  · -- insert
    refine Inspects.commits (.requireCount ..) fun _ => Inspects.commits (.charge ..) fun _ => ?_
    split
    · exact .raise _
    · exact .updateList ..
  · -- index
    refine Inspects.commits (.soleArgument ..) fun v => Inspects.commits (.charge ..) fun _ => ?_
    refine Inspects.commits .get fun s => ?_
    split
    · exact of_inspects (.countValue _)
    · exact .raise _
  · -- count
    refine Inspects.commits (.soleArgument ..) fun v => Inspects.commits (.charge ..) fun _ => ?_
    exact of_inspects (.bind .get fun _ => .countValue _)
  · -- reverse
    refine Inspects.commits (.requireNone ..) fun _ => Inspects.commits (.charge ..) fun _ => ?_
    exact .updateList ..
  · -- sort: the items are compared before the list changes
    refine Inspects.commits (.requireNone ..) fun _ => Inspects.commits (.charge ..) fun _ => ?_
    exact Inspects.commits .get fun _ => Inspects.commits (.ofExcept _) fun _ => .updateList ..
  · -- copy
    refine Inspects.commits (.requireNone ..) fun _ => Inspects.commits (.charge ..) fun _ => ?_
    exact Inspects.commits (.itemsOf ref) fun _ => .newList _
  · exact .raise _

protected theorem newTexts (texts : List String) : Commits receiver (newTexts texts) := .newList _

/-- Texts do not change, so the only change is a new list. -/
protected theorem callTextMethod (text : String) :
    Commits receiver (callTextMethod budget text method args) := by
  refine Inspects.commits (.charge ..) fun _ => ?_
  split
  · -- upper
    exact of_inspects (.bind (.requireNone ..) fun _ => .pure _)
  · -- lower
    exact of_inspects (.bind (.requireNone ..) fun _ => .pure _)
  · -- strip
    exact of_inspects (.bind (.requireNone ..) fun _ => .pure _)
  · -- split
    refine Inspects.commits (.requireCount ..) fun _ => ?_
    cases args with
    | nil => exact .newTexts _
    | cons v rest =>
      refine Inspects.commits (.ofExcept _) fun separator => ?_
      exact .guarded (.newTexts _)
  · -- join
    refine of_inspects (.bind (.soleArgument ..) fun v => .bind (.iterate v) fun _ => ?_)
    exact .bind (.charge ..) fun _ => .bind (.ofExcept _) fun _ => .boundedText _
  · -- startswith
    exact of_inspects (.bind (.soleArgument ..) fun _ => .bind (.ofExcept _) fun _ => .pure _)
  · -- endswith
    exact of_inspects (.bind (.soleArgument ..) fun _ => .bind (.ofExcept _) fun _ => .pure _)
  · -- replace
    refine Inspects.commits (.requireCount ..) fun _ => Inspects.commits (.ofExcept _) fun pattern => ?_
    refine Inspects.commits (.ofExcept _) fun replacement => ?_
    exact .guarded (of_inspects (.boundedText _))
  · exact .raise _

end Commits

/-- A call of a method that stops, for whatever reason, leaves everything as it was, all lists included, but
for the meter; a call that succeeds changes besides no list that was there but that of the receiver.  This
holds of all receivers, methods and arguments, the receiver itself among them. -/
theorem callMethod_commits (budget : Budget) (receiver : Value) (method : String) (args : List Value)
    (s : State) :
    (∀ stop t, (callMethod budget receiver method args).run s = .error stop t →
      t = { s with used := t.used, nextPoll := t.nextPoll }) ∧
    ∀ v t, (callMethod budget receiver method args).run s = .ok v t →
      t = { s with heap := t.heap, used := t.used, nextPoll := t.nextPoll } ∧
        ∀ ref < s.heap.size, receiver ≠ .list ref → t.heap.items ref = s.heap.items ref := by
  have hcommits : Commits receiver (callMethod budget receiver method args) := by
    cases receiver with
    | list ref => exact .callListMethod budget method args ref
    | str text => exact .callTextMethod budget method args text
    | _ => exact .raise _
  have hsettled := hcommits.settled s
  constructor
  · intro stop t hrun
    rw [hrun] at hsettled
    obtain ⟨⟩ | ⟨hsame⟩ := hsettled
    exact hsame
  · intro v t hrun
    rw [hrun] at hsettled
    obtain ⟨hsame⟩ | ⟨⟩ := hsettled
    exact ⟨hsame.frame, hsame.items⟩

/-- A state with two lists, one of a number and a text and one of a number. -/
def twoLists : State := { heap := #[#[.int 2, .str "a"], #[.int 5]] }

/-- The items of the first list cannot be put in order; but it can be extended by itself. -/
theorem callMethod_commits_twoLists :
    (∃ stop t, (callMethod { fuel := 10 } (.list 0) "sort" []).run twoLists = .error stop t ∧
      t.heap = twoLists.heap) ∧
    ∃ v t, (callMethod { fuel := 10 } (.list 0) "extend" [.list 0]).run twoLists = .ok v t ∧
      (t.heap.items 0).size = 4 ∧ t.heap.items 1 = twoLists.heap.items 1 := by
  constructor
  · have hrun : ∃ stop t, (callMethod { fuel := 10 } (.list 0) "sort" []).run twoLists = .error stop t :=
      ⟨_, _, rfl⟩
    obtain ⟨stop, t, hrun⟩ := hrun
    have hsame := (callMethod_commits { fuel := 10 } (.list 0) "sort" [] twoLists).1 stop t hrun
    exact ⟨stop, t, hrun, by rw [hsame]⟩
  · have hrun : ∃ v t, (callMethod { fuel := 10 } (.list 0) "extend" [.list 0]).run twoLists = .ok v t ∧
        (t.heap.items 0).size = 4 := ⟨_, _, rfl, rfl⟩
    obtain ⟨v, t, hrun, hsize⟩ := hrun
    obtain ⟨-, hothers⟩ := (callMethod_commits { fuel := 10 } (.list 0) "extend" [.list 0] twoLists).2 v t hrun
    exact ⟨v, t, hrun, hsize, hothers 1 (by decide) (by simp)⟩

end ProgramBreeding

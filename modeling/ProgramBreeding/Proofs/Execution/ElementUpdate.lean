import ProgramBreeding.Proofs.Execution.Steady

/-!
# Updates of elements

The target of an augmented assignment is evaluated for its value, and if it is an element, its container and
its index are evaluated again when the result is stored.  Nothing but the meter tells the difference as long as
the second time yields what the first time did.

## Main definitions

* `augmentOnce` — an augmented assignment that evaluates container and index once.
* `AlikeButMeter` — what it comes to, and what comes to the same but for the meter.
* `augment_alike` — the result is stored where it would be stored at once.
* `Program.exec_augAssign_once` — augmented assignments of elements.
-/

namespace ProgramBreeding

variable {α β : Type}

/-- Combines an element of a list with another value and puts the result in its place.  Adding a list to a list
extends the first one in place. -/
def updateElement (list position : Value) (op : BinaryOp) (current operand : Value) : Exec Unit :=
  match op, current, operand with
  | .add, .list ref, .list other => do
    let extra ← itemsOf other
    updateList ref fun items => items ++ extra
  | op, current, operand => do
    let result ← binaryOp op current operand
    storeItem list position result

/-- What is done unless a list is added to a list. -/
theorem updateElement_eq {op : BinaryOp} {current operand : Value} (list position : Value)
    (h : ∀ ref other, op = .add → current = .list ref → operand ≠ .list other) :
    updateElement list position op current operand = (do
      let result ← binaryOp op current operand
      storeItem list position result) := by
  unfold updateElement
  split
  · exact absurd rfl (h _ _ rfl rfl)
  · rfl

/-- An augmented assignment of an element that evaluates container and index once. -/
def augmentOnce (env : Env) (container index : Expr Label) (op : BinaryOp) (value : Expr Label) : Exec Flow := do
  charge env.budget 1
  charge env.budget 1
  let list ← container.eval env
  let position ← index.eval env
  let current ← elementAt list position
  let operand ← value.eval env
  updateElement list position op current operand
  return .next

/-- What an augmented assignment of an element does. -/
theorem Stmt.exec_augAssign_subscript (env : Env) (label label' : Label) (container index : Expr Label)
    (op : BinaryOp) (value : Expr Label) :
    (Stmt.augAssign label (.subscript label' container index) op value).exec env = (do
      charge env.budget 1
      charge env.budget 1
      let list ← container.eval env
      let position ← index.eval env
      let current ← elementAt list position
      let operand ← value.eval env
      augment env (.subscript label' container index) op current operand
      return .next) := by
  simp only [Stmt.exec, Expr.eval, bind_assoc]

/-- How an action ends, and how another one ends that does the same but for the meter, if the limits allow
it. -/
inductive AlikeButMeter (budget : Budget) : EStateM.Result Stop State α → EStateM.Result Stop State α → Prop
  | ok (a : α) {s t : State} (h : s.SameButMeter t) : AlikeButMeter budget (.ok a s) (.ok a t)
  | error (stop : Stop) {s t : State} (h : s.SameButMeter t) :
    AlikeButMeter budget (.error stop s) (.error stop t)
  | limited (r : EStateM.Result Stop State α) {stop : Stop} (t : State) (h : budget.Limits stop) :
    AlikeButMeter budget r (.error stop t)

namespace AlikeButMeter

variable {budget : Budget} {s t : State}

protected theorem refl (r : EStateM.Result Stop State α) : AlikeButMeter budget r r := by
  cases r with
  | ok a s => exact .ok a .rfl
  | error stop s => exact .error stop .rfl

/-- What comes after the same action. -/
protected theorem bind {m : Exec α} {f f' : α → Exec β}
    (h : ∀ a t, m.run s = .ok a t → AlikeButMeter budget ((f a).run t) ((f' a).run t)) :
    AlikeButMeter budget ((m >>= f).run s) ((m >>= f').run s) := by
  cases hrun : m.run s with
  | ok a t =>
    rw [run_bind_ok hrun, run_bind_ok hrun]
    exact h a t hrun
  | error stop t =>
    rw [run_bind_error hrun, run_bind_error hrun]
    exact .refl _

/-- What comes to an end in the same way. -/
protected theorem andReturn {m m' : Exec α} (h : AlikeButMeter budget (m.run s) (m'.run s)) (b : β) :
    AlikeButMeter budget ((m >>= fun _ => pure b).run s) ((m' >>= fun _ => pure b).run s) := by
  generalize hrun : m.run s = r at h
  generalize hrun' : m'.run s = r' at h
  cases h with
  | ok a h =>
    rw [run_bind_ok hrun, run_bind_ok hrun']
    exact .ok b h
  | error stop h =>
    rw [run_bind_error hrun, run_bind_error hrun']
    exact .error stop h
  | limited r t h =>
    rw [run_bind_error hrun']
    exact .limited _ t h

/-- A steady action in between. -/
protected theorem between {lists : Bool} {m : Exec α} {a : α} {f : α → Exec β}
    {r : EStateM.Result Stop State β} (hm : Steady budget lists m a s) (hs : s.Resembles lists t)
    (h : ∀ u, t.SameButMeter u → AlikeButMeter budget r ((f a).run u)) :
    AlikeButMeter budget r ((m >>= f).run t) := by
  have hcomes := hm t hs
  generalize hrun : m.run t = r' at hcomes
  cases hcomes with
  | ok hu =>
    rw [run_bind_ok hrun]
    exact h _ hu
  | limited hstop _ =>
    rw [run_bind_error hrun]
    exact .limited r _ hstop

/-- An item is replaced whatever the meter shows. -/
protected theorem storeItem (container index value : Value) (h : s.SameButMeter t) :
    AlikeButMeter budget ((storeItem container index value).run s) ((storeItem container index value).run t) := by
  unfold State.SameButMeter at h
  generalize t.used = used at h
  generalize t.nextPoll = nextPoll at h
  subst h
  cases container with
  | list ref =>
    have hget (w : State) : (ProgramBreeding.storeItem (.list ref) index value).run w = (do
        let position ← ofExcept (indexWithin index (w.heap.items ref).size)
        updateList ref fun items => items.setIfInBounds position value : Exec Unit).run w := rfl
    rw [hget, hget]
    dsimp only
    cases indexWithin index (s.heap.items ref).size with
    | ok position => exact .ok () (.of_meter _ _)
    | error fault => exact .error _ (.of_meter _ _)
  | _ => exact .error _ (.of_meter _ _)

end AlikeButMeter

/-- An operator makes at most a new list. -/
theorem binaryOp_commits (op : BinaryOp) (a b : Value) : Commits .none (binaryOp op a b) := by
  have hoperates := binaryOp_operates op a b
  generalize binaryOp op a b = m at hoperates ⊢
  cases hoperates with
  | number =>
    unfold numberOp
    split
    · exact .of_inspects (.bind (.ofExcept _) fun _ => .pure _)
    · exact .raise _
  | join x y _ =>
    split
    · exact .raise _
    · exact .of_inspects (.pure _)
  | append x y =>
    exact Inspects.commits (.itemsOf _) fun _ => Inspects.commits (.itemsOf _) fun _ => .guarded (.newList _)
  | repeatText text count _ => exact .of_inspects (.bind (.ofExcept _) fun _ => .pure _)
  | repeatList ref count =>
    exact Inspects.commits (.itemsOf _) fun _ => Inspects.commits (.ofExcept _) fun _ => .newList _

theorem binaryOp_resembles {op : BinaryOp} {a b v : Value} {s t : State}
    (h : (binaryOp op a b).run s = .ok v t) (lists : Bool) : s.Resembles lists t := by
  have hsettled := (binaryOp_commits op a b).settled s
  rw [h] at hsettled
  obtain ⟨hsame⟩ | ⟨⟩ := hsettled
  constructor
  · rw [hsame.frame]
    exact .of_eq rfl rfl
  · intro _ ref hne
    refine hsame.items ref ?_ (by simp)
    by_contra hlt
    apply hne
    unfold Heap.items
    rw [Array.getD_eq_getD_getElem?, Array.getElem?_eq_none (Nat.not_lt.mp hlt)]
    rfl

/-- What is done with the result of an operation: an element whose container and index are steady is replaced
as if they were evaluated once. -/
theorem augment_alike {env : Env} {container index : Expr Label} {label : Label} {lists : Bool}
    {list position : Value} {s s' : State} (hcontainer : Steady env.budget lists (container.eval env) list s)
    (hrun : (container.eval env).run s = .ok list s')
    (hindex : Steady env.budget lists (index.eval env) position s') {w : State} (hw : s.Resembles lists w)
    (op : BinaryOp) (current operand : Value) :
    AlikeButMeter env.budget ((updateElement list position op current operand).run w)
      ((augment env (.subscript label container index) op current operand).run w) := by
  by_cases hlists : ∃ ref other, op = .add ∧ current = .list ref ∧ operand = .list other
  · obtain ⟨ref, other, rfl, rfl, rfl⟩ := hlists
    exact .refl _
  · have hother (ref other : Ref) (hop : op = .add) (hcurrent : current = .list ref) : operand ≠ .list other :=
      fun hoperand => hlists ⟨ref, other, hop, hcurrent, hoperand⟩
    rw [updateElement_eq list position hother, augment_eq env _ hother]
    refine .bind fun result u hop => ?_
    have hu : s.Resembles lists u := hw.trans (binaryOp_resembles hop lists)
    refine .between hcontainer hu fun u' hu' => .between hindex ?_ fun u'' hu'' => ?_
    · exact hu.move (hcontainer.sameButMeter hrun).2 hu'
    · exact .storeItem list position result (hu'.trans hu'')

namespace Program

/-- An augmented assignment of an element does what it would do if container and index were evaluated once: it
changes the same item of the same list in the same way, with the same output, or fails in the same way.
Only fuel is spent twice, so that a run may come to its limits.  This holds if the container names a place,
container and index are plain, and, in case that they look at elements, the evaluation of the operand leaves the
items of all lists that have any as they are. -/
theorem exec_augAssign_once (p : Program) (budget : Budget) (depth : Nat) (label label' : Label)
    (container index : Expr Label) (op : BinaryOp) (value : Expr Label) (s : State)
    (hplace : container.isPlace = true) (hcontainer : container.isPlain = true) (hindex : index.isPlain = true)
    (hkeeps : (container.readsElements || index.readsElements) = true → ∀ t, s.SameButMeter t →
      ∀ ref, t.heap.items ref ≠ #[] →
        (endState ((value.eval ⟨budget, callFunction p.functions budget depth⟩).run t)).heap.items ref =
          t.heap.items ref) :
    AlikeButMeter budget
      ((augmentOnce ⟨budget, callFunction p.functions budget depth⟩ container index op value).run s)
      (((Stmt.augAssign label (.subscript label' container index) op value).exec
        ⟨budget, callFunction p.functions budget depth⟩).run s) := by
  have hoperand := (p.eval_metered depth value fun _ => False).leads sameBut_invariant budget
  generalize henv : (⟨budget, callFunction p.functions budget depth⟩ : Env) = env at hkeeps hoperand ⊢
  obtain rfl : env.budget = budget := by rw [← henv]
  rw [Stmt.exec_augAssign_subscript]
  unfold augmentOnce
  refine .bind fun _ s₁ hcharge => .bind fun _ s₂ hcharge' => .bind fun list s₃ hlist => ?_
  refine .bind fun position s₄ hposition => .bind fun current s₅ helement => .bind fun operand w hvalue => ?_
  have hlist' : Steady env.budget (container.readsElements || index.readsElements) (container.eval env) list s₂ :=
    (container.eval_steady env hcontainer hlist (.inl hplace)).mono fun h => Bool.or_eq_true_iff.mpr (.inl h)
  have hposition' :
      Steady env.budget (container.readsElements || index.readsElements) (index.eval env) position s₃ :=
    (index.eval_steady env hindex hposition (.inr (elementAt_eq_ok helement))).mono fun h =>
      Bool.or_eq_true_iff.mpr (.inr h)
  -- Up to here nothing but the meter has changed.
  have hbefore : s.SameButMeter s₂ :=
    ((Inspects.charge env.budget 1).sameButMeter hcharge).trans
      ((Inspects.charge env.budget 1).sameButMeter hcharge')
  have helement' : Steady env.budget true (elementAt list position) current s₄ := .elementAt helement
  have hread : s₂.SameButMeter s₅ :=
    ((hlist'.sameButMeter hlist).2.trans (hposition'.sameButMeter hposition).2).trans
      (helement'.sameButMeter helement).2
  have hw : s₅.Resembles (container.readsElements || index.readsElements) w := by
    have hbindings := hoperand s₅
    have hitems (hreads : (container.readsElements || index.readsElements) = true) :=
      hkeeps hreads s₅ (hbefore.trans hread)
    rw [hvalue] at hbindings hitems
    exact ⟨hbindings, hitems⟩
  exact .andReturn (augment_alike hlist' hlist hposition' ((State.Resembles.of_meter hread).trans hw)
    op current operand) Flow.next

/-- A state with a list of one row, `grid`, and with two lists `xs` and `ks`. -/
def gridAndKeys : State where
  globals := [("grid", .list 0), ("row", .int 0), ("xs", .list 2), ("ks", .list 3)]
  heap := #[#[.list 1], #[.int 5, .int 6], #[.int 10, .int 20, .int 30], #[.int 0, .int 1]]

/-- The statement `grid[row][1] += 7`. -/
theorem exec_augAssign_once_grid :
    ∃ t u,
      (augmentOnce ⟨{ fuel := 100 }, callFunction [] { fuel := 100 } 0⟩
        (.subscript 2 (.name 3 "grid") (.name 4 "row")) (.constant 5 (.int 1)) .add
        (.constant 6 (.int 7))).run gridAndKeys = .ok .next t ∧
      ((Stmt.augAssign 0 (.subscript 1 (.subscript 2 (.name 3 "grid") (.name 4 "row")) (.constant 5 (.int 1))) .add
        (.constant 6 (.int 7))).exec ⟨{ fuel := 100 }, callFunction [] { fuel := 100 } 0⟩).run gridAndKeys =
          .ok .next u ∧
      t.SameButMeter u ∧ u.heap.items 1 = #[.int 5, .int 13] := by
  have hconstant :
      Inspects ((Expr.constant 6 (.int 7)).eval ⟨{ fuel := 100 }, callFunction [] { fuel := 100 } 0⟩) :=
    .bind (.charge ..) fun _ => .pure _
  have halike := exec_augAssign_once ⟨[], []⟩ { fuel := 100 } 0 0 1
    (.subscript 2 (.name 3 "grid") (.name 4 "row")) (.constant 5 (.int 1)) .add (.constant 6 (.int 7)) gridAndKeys
    rfl rfl rfl fun _ t _ ref _ => by rw [(hconstant.ends t).heap_eq]
  refine ⟨_, _, rfl, rfl, ?_, rfl⟩
  obtain ⟨_, hsame⟩ | _ | _ := halike
  exact hsame

/-- The number that stands first in `xs` after an action that has succeeded. -/
def firstOfXs : EStateM.Result Stop State Flow → Option Int64
  | .ok _ s => ((s.heap.items 2).getD 0 .none).int?
  | .error _ _ => none

/-- In `xs[ks.pop()] += 1` the key is taken twice: one element is read and another one is replaced. -/
theorem not_exec_augAssign_once :
    ¬ ∀ (p : Program) (budget : Budget) (depth : Nat) (label label' : Label) (container index : Expr Label)
      (op : BinaryOp) (value : Expr Label) (s : State),
        AlikeButMeter budget
          ((augmentOnce ⟨budget, callFunction p.functions budget depth⟩ container index op value).run s)
          (((Stmt.augAssign label (.subscript label' container index) op value).exec
            ⟨budget, callFunction p.functions budget depth⟩).run s) := by
  intro hall
  have halike := hall ⟨[], []⟩ { fuel := 100 } 0 0 1 (.name 2 "xs")
    (.call 3 (.attribute 4 (.name 5 "ks") "pop") []) .add (.constant 6 (.int 1)) gridAndKeys
  have honce : firstOfXs ((augmentOnce ⟨{ fuel := 100 }, callFunction [] { fuel := 100 } 0⟩ (.name 2 "xs")
      (.call 3 (.attribute 4 (.name 5 "ks") "pop") []) .add (.constant 6 (.int 1))).run gridAndKeys) = some 10 :=
    rfl
  have htwice : firstOfXs (((Stmt.augAssign 0 (.subscript 1 (.name 2 "xs")
      (.call 3 (.attribute 4 (.name 5 "ks") "pop") [])) .add (.constant 6 (.int 1))).exec
        ⟨{ fuel := 100 }, callFunction [] { fuel := 100 } 0⟩).run gridAndKeys) = some 21 := by
    decide +kernel
  generalize (augmentOnce _ _ _ _ _).run gridAndKeys = once at halike honce
  generalize ((Stmt.augAssign _ _ _ _).exec _).run gridAndKeys = twice at halike htwice
  cases halike with
  | ok flow hsame =>
    dsimp only [firstOfXs] at honce htwice
    rw [hsame.heap_eq, honce] at htwice
    cases htwice
  | error => cases htwice
  | limited => cases htwice

end Program

end ProgramBreeding

import ProgramBreeding.Execution.Method
import ProgramBreeding.Proofs.Execution.Sizes

/-!
# What operations build

From a state within the limit, operators, built-in functions and methods lead to states within
it, whether they succeed or stop.

## Main definitions

* `EndsInLimit` — an action has ended with all lists and texts within the limit.
* `KeepsLimit` — from every state within the limit, an action ends within it.
* `KeepsLimit.binaryOp`, `KeepsLimit.callBuiltin`, `KeepsLimit.callMethod` — operators, built-in
  functions and methods.
* `isUncheckedCall` — calls of methods that do not check what they build.

## Design notes

No operation has to be told the sizes that it finds: they are within the limit like all others.
Only `append` and `extend` add to a list that is there already, and rely on the size it had when
they looked; so the rules for them speak of the state that they start from.
-/

namespace ProgramBreeding

variable {α β : Type}

/-- An action has ended with all lists and texts within the limit; if it succeeded, its result
and its last state are as wanted. -/
inductive EndsInLimit (Q : α → State → Prop) : EStateM.Result Stop State α → Prop
  | ok {a : α} {s : State} (hs : s.InLimit) (ha : Q a s) : EndsInLimit Q (.ok a s)
  | error {e : Stop} {s : State} (hs : s.InLimit) : EndsInLimit Q (.error e s)

namespace EndsInLimit

variable {Q Q' : α → State → Prop} {r : EStateM.Result Stop State α}

theorem inLimit (h : EndsInLimit Q r) : (endState r).InLimit := by
  cases h with
  | ok hs => exact hs
  | error hs => exact hs

theorem mono (h : EndsInLimit Q r) (hQ : ∀ a s, Q a s → Q' a s) : EndsInLimit Q' r := by
  cases h with
  | ok hs ha => exact .ok hs (hQ _ _ ha)
  | error hs => exact .error hs

protected theorem bind {R : α → State → Prop} {Q : β → State → Prop} {m : Exec α} {f : α → Exec β}
    {s : State} (hm : EndsInLimit R (m.run s))
    (hf : ∀ a t, t.InLimit → R a t → EndsInLimit Q ((f a).run t)) :
    EndsInLimit Q ((m >>= f).run s) := by
  cases hrun : m.run s with
  | ok a t =>
    rw [hrun] at hm
    cases hm with
    | ok ht ha =>
      rw [run_bind_ok hrun]
      exact hf a t ht ha
  | error e t =>
    rw [hrun] at hm
    cases hm with
    | error ht =>
      rw [run_bind_error hrun]
      exact .error ht

/-- The same end in another state within the limit. -/
protected theorem endIn {f : State → State} (h : EndsInLimit Q r)
    (hf : ∀ s, s.InLimit → (f s).InLimit) (hQ : ∀ a s, Q a s → Q' a (f s)) :
    EndsInLimit Q' (endIn f r) := by
  cases h with
  | ok hs ha => exact .ok (hf _ hs) (hQ _ _ ha)
  | error hs => exact .error (hf _ hs)

/-- A charge leaves the lists alone. -/
protected theorem charge (budget : Budget) (units : UInt64) {s : State} (hs : s.InLimit) :
    EndsInLimit (fun _ t => t.heap = s.heap) ((charge budget units).run s) := by
  obtain ⟨nextPoll, hend⟩ := endState_charge budget units s
  generalize (charge budget units).run s = r at hend
  cases r with
  | ok a t =>
    cases (show t = _ from hend)
    exact .ok (hs.of_eq rfl rfl rfl) rfl
  | error e t =>
    cases (show t = _ from hend)
    exact .error (hs.of_eq rfl rfl rfl)

protected theorem iterate {v : Value} (hv : v.InLimit) {s : State} (hs : s.InLimit) :
    EndsInLimit (fun items t => t = s ∧ Items.InLimit items.toList) ((iterate v).run s) := by
  cases v with
  | list ref => exact .ok hs ⟨rfl, hs.items ref⟩
  | str text => exact .ok hs ⟨rfl, .characters hv⟩
  | _ => exact .error hs

end EndsInLimit

/-- From every state within the limit, an action ends within it, and with a result as wanted if
it succeeds. -/
structure KeepsLimit (m : Exec α) (Q : α → Prop) : Prop where
  ends : ∀ s : State, s.InLimit → EndsInLimit (fun a _ => Q a) (m.run s)

namespace KeepsLimit

variable {m n : Exec α} {f : α → Exec β} {Q : α → Prop}

theorem mono {Q' : α → Prop} (h : KeepsLimit m Q) (hQ : ∀ a, Q a → Q' a) : KeepsLimit m Q' :=
  ⟨fun s hs => (h.ends s hs).mono fun a _ => hQ a⟩

protected theorem pure {a : α} (ha : Q a) : KeepsLimit (pure a) Q := ⟨fun _ hs => .ok hs ha⟩

protected theorem throw (e : Stop) : KeepsLimit (throw e : Exec α) Q := ⟨fun _ hs => .error hs⟩

protected theorem raise (fault : Fault) : KeepsLimit (raise fault : Exec α) Q := .throw _

protected theorem get : KeepsLimit (get : Exec State) State.InLimit := ⟨fun _ hs => .ok hs hs⟩

protected theorem bind {Q : β → Prop} {R : α → Prop} (hm : KeepsLimit m R)
    (hf : ∀ a, R a → KeepsLimit (f a) Q) : KeepsLimit (m >>= f) Q :=
  ⟨fun s hs => (hm.ends s hs).bind fun a t ht ha => (hf a ha).ends t ht⟩

protected theorem ite {p : Prop} [Decidable p] (hm : p → KeepsLimit m Q)
    (hn : ¬ p → KeepsLimit n Q) : KeepsLimit (if p then m else n) Q := by
  split
  · exact hm ‹_›
  · exact hn ‹_›

/-- What comes after a check may rely on it. -/
protected theorem guarded {p : Prop} [Decidable p] {fault : Fault} {f : PUnit → Exec α}
    (hm : ¬ p → KeepsLimit m Q) : KeepsLimit (if p then raise fault >>= f else m) Q :=
  .ite (fun _ => .bind (R := fun _ => False) (.raise fault) fun _ h => h.elim) hm

protected theorem ofExcept (x : Except Fault α) : KeepsLimit (ofExcept x) fun a => x = .ok a := by
  cases x with
  | ok a => exact .pure rfl
  | error fault => exact .raise fault

protected theorem charge (budget : Budget) (units : UInt64) :
    KeepsLimit (charge budget units) fun _ => True :=
  ⟨fun _ hs => (EndsInLimit.charge budget units hs).mono fun _ _ _ => trivial⟩

/-! ### Lists and variables -/

protected theorem newList {items : Array Value} (h : Items.InLimit items.toList) :
    KeepsLimit (newList items) Value.InLimit :=
  ⟨fun _ hs => .ok (hs.push h) True.intro⟩

protected theorem itemsOf (ref : Ref) :
    KeepsLimit (itemsOf ref) fun items => Items.InLimit items.toList :=
  ⟨fun _ hs => .ok hs (hs.items ref)⟩

protected theorem updateList {ref : Ref} {f : Array Value → Array Value}
    (hf : ∀ items : Array Value, Items.InLimit items.toList → Items.InLimit (f items).toList) :
    KeepsLimit (updateList ref f) fun _ => True :=
  ⟨fun _ hs => .ok (hs.modify (hf _ (hs.items ref))) trivial⟩

protected theorem iterate {v : Value} (hv : v.InLimit) :
    KeepsLimit (iterate v) fun items => Items.InLimit items.toList :=
  ⟨fun _ hs => (EndsInLimit.iterate hv hs).mono fun _ _ h => h.2⟩

protected theorem truth (v : Value) : KeepsLimit (truth v) fun _ => True :=
  ⟨fun _ hs => .ok hs trivial⟩

protected theorem getVar {name : String} (hname : name ≠ "str") :
    KeepsLimit (getVar name) Value.InLimit := by
  refine .bind .get fun s hs => ?_
  split
  · exact .pure (hs.lookup hname ‹_›)
  · exact .raise _

protected theorem setVar (name : String) {v : Value} (hv : v.InLimit) :
    KeepsLimit (setVar name v) fun _ => True :=
  ⟨fun _ hs => .ok (hs.updateScope fun scope => State.InLimit.insert name hv scope) trivial⟩

protected theorem writeLine (line : String) : KeepsLimit (writeLine line) fun _ => True := by
  refine ⟨fun s hs => .ok ?_ trivial⟩
  dsimp only
  split
  · exact hs.of_eq rfl rfl rfl
  · exact hs

protected theorem shielding {x : String} (h : KeepsLimit m Q) : KeepsLimit (shielding x m) Q := by
  refine ⟨fun s hs => ?_⟩
  rw [shielding_run]
  exact (h.ends _ (hs.updateScope fun _ hscope => State.InLimit.erase hscope x)).endIn
    (fun _ ht => ht.restore x fun _ hv => State.InLimit.get? hs.scope hv) fun _ _ ha => ha

protected theorem inFrame {frame : Scope} (hframe : ∀ entry ∈ frame, entry.2.InLimit)
    (h : KeepsLimit m Q) : KeepsLimit (inFrame frame m) Q := by
  refine ⟨fun s hs => ?_⟩
  have hinside : State.InLimit { s with frames := frame :: s.frames } :=
    ⟨hs.globals, List.forall_mem_cons.mpr ⟨hframe, hs.frames⟩, hs.items⟩
  rw [inFrame_run]
  exact (h.ends _ hinside).endIn (fun _ ht => ht.leaveFrame) fun _ _ ha => ha

/-! ### Operators and elements -/

protected theorem numberOp (op : BinaryOp) (a b : Value) :
    KeepsLimit (numberOp op a b) Value.InLimit := by
  unfold numberOp
  split
  · exact .bind (.ofExcept _) fun n _ => .pure n.toValue_inLimit
  · exact .raise _

end KeepsLimit

theorem repetitions_le {count : Int64} {size n : Nat} (h : repetitions count size = .ok n) :
    size * n ≤ maxSequence := by
  unfold repetitions at h
  dsimp only at h
  generalize (if size = 0 then 0 else count.toInt.toNat) = k at h
  split at h
  · cases h
  · cases h
    omega

theorem toList_foldl_replicate (items : Array Value) (n : Nat) : ∀ found : Array Value,
    ((List.replicate n items).foldl (· ++ ·) found).toList =
      found.toList ++ (List.replicate n items.toList).flatten := by
  induction n with
  | zero => simp
  | succ n ih =>
    intro found
    rw [List.replicate_succ, List.foldl_cons, ih, Array.toList_append, List.replicate_succ,
      List.flatten_cons, List.append_assoc]

namespace KeepsLimit

variable {a b : Value}

protected theorem repeatText (text : String) (count : Int64) :
    KeepsLimit (repeatText text count) Value.InLimit := by
  refine .bind (.ofExcept _) fun n hn => .pure ?_
  show (String.join (List.replicate n text)).length ≤ maxSequence
  calc (String.join (List.replicate n text)).length
      = n * text.length := by simp [String.length_join]
    _ ≤ n * text.utf8ByteSize := Nat.mul_le_mul_left n (length_le_utf8ByteSize text)
    _ ≤ maxSequence := Nat.mul_comm n _ ▸ repetitions_le hn

protected theorem repeatList (ref : Ref) (count : Int64) :
    KeepsLimit (repeatList ref count) Value.InLimit := by
  refine .bind (.itemsOf ref) fun items hitems => .bind (.ofExcept _) fun n hn => .newList ?_
  rw [toList_foldl_replicate]
  refine ⟨?_, ?_⟩
  · simpa [Nat.mul_comm] using repetitions_le hn
  · simpa using fun v _ hv => hitems.values v (by simpa using hv)

/-- Repeating and joining are checked. -/
protected theorem binaryOp (op : BinaryOp) (ha : a.InLimit) (hb : b.InLimit) :
    KeepsLimit (binaryOp op a b) Value.InLimit := by
  unfold binaryOp
  split
  · rename_i x y
    refine .ite (fun _ => .raise _) fun hroom => .pure ?_
    have hx := length_le_utf8ByteSize x
    have hy := length_le_utf8ByteSize y
    show (x ++ y).length ≤ maxSequence
    rw [String.length_append]
    omega
  · refine .bind (.itemsOf _) fun xs hxs => .bind (.itemsOf _) fun ys hys => ?_
    refine .guarded fun hroom => .newList ?_
    rw [Array.size_append] at hroom
    rw [Array.toList_append]
    exact hxs.append hys (by simpa using hroom)
  · split
    · exact .repeatText ..
    · exact .numberOp ..
  · split
    · exact .repeatText ..
    · exact .numberOp ..
  · split
    · exact .repeatList ..
    · exact .numberOp ..
  · split
    · exact .repeatList ..
    · exact .numberOp ..
  · exact .numberOp ..

protected theorem signOp (op : UnaryOp) (a : Value) : KeepsLimit (signOp op a) Value.InLimit := by
  unfold signOp
  split
  · exact .bind (.truth a) fun _ _ => .pure True.intro
  · unfold signValue
    split
    · exact .bind (.ofExcept _) fun n _ => .pure n.toValue_inLimit
    · exact .raise _

theorem getD_inLimit {items : Array Value} (h : Items.InLimit items.toList) (n : Nat) :
    (items.getD n .none).InLimit := by
  rw [Array.getD_eq_getD_getElem?, ← Array.getElem?_toList, ← List.getD_eq_getElem?_getD]
  exact .getD h.values n True.intro

protected theorem elementAt (a b : Value) : KeepsLimit (elementAt a b) Value.InLimit := by
  unfold elementAt
  split
  · exact .bind (.itemsOf _) fun items hitems => .bind (.ofExcept _) fun n _ =>
      .pure (getD_inLimit hitems n)
  · refine .bind (.ofExcept _) fun n _ => .pure ?_
    split
    · exact Value.inLimit_character _
    · exact True.intro
  · exact .raise _

protected theorem storeItem (a b : Value) {v : Value} (hv : v.InLimit) :
    KeepsLimit (storeItem a b v) fun _ => True := by
  unfold storeItem
  split
  · refine .bind (.itemsOf _) fun _ _ => .bind (.ofExcept _) fun n _ => .updateList fun items h => ?_
    rw [Array.toList_setIfInBounds]
    exact h.set n hv
  · exact .raise _

/-! ### Built-in functions -/

variable {args : List Value}

protected theorem requireCount (name : String) (args : List Value) (least greatest : Nat) :
    KeepsLimit (requireCount name args least greatest) fun _ => True := by
  unfold requireCount
  exact .ite (fun _ => .pure trivial) fun _ => .ite (fun _ => .raise _) fun _ => .raise _

protected theorem countValue (n : Nat) : KeepsLimit (countValue n) Value.InLimit := by
  unfold countValue
  split
  · exact .pure True.intro
  · exact .raise _

protected theorem lengthOf (v : Value) : KeepsLimit (lengthOf v) Value.InLimit := by
  cases v with
  | list ref => exact .bind (.itemsOf ref) fun _ _ => .countValue _
  | str text => exact .countValue _
  | _ => exact .raise _

protected theorem addAll {total : Value} (htotal : total.InLimit) {vs : List Value}
    (hvs : ∀ v ∈ vs, v.InLimit) : KeepsLimit (addAll total vs) Value.InLimit := by
  induction vs generalizing total with
  | nil => exact .pure htotal
  | cons v rest ih =>
    obtain ⟨hv, hrest⟩ := List.forall_mem_cons.mp hvs
    exact .bind (.binaryOp .add htotal hv) fun _ h => ih h hrest

protected theorem bestOf (wanted : Ordering) {best : Value} (hbest : best.InLimit)
    {vs : List Value} (hvs : ∀ v ∈ vs, v.InLimit) :
    KeepsLimit (bestOf wanted best vs) Value.InLimit := by
  induction vs generalizing best with
  | nil => exact .pure hbest
  | cons v rest ih =>
    obtain ⟨hv, hrest⟩ := List.forall_mem_cons.mp hvs
    refine .bind .get fun _ _ => .bind (.ofExcept _) fun _ _ => ih ?_ hrest
    split
    · exact hv
    · exact hbest

protected theorem bestOfAll (budget : Budget) (name : String) (wanted : Ordering)
    {items : List Value} (hitems : ∀ v ∈ items, v.InLimit) :
    KeepsLimit (bestOfAll budget name wanted items) Value.InLimit := by
  refine .bind (.charge ..) fun _ _ => ?_
  cases items with
  | nil => exact .raise _
  | cons first rest =>
    obtain ⟨hfirst, hrest⟩ := List.forall_mem_cons.mp hitems
    exact .bestOf wanted hfirst hrest

protected theorem callExtremum (budget : Budget) (name : String) (wanted : Ordering)
    (hargs : ∀ v ∈ args, v.InLimit) :
    KeepsLimit (callExtremum budget name wanted args) Value.InLimit := by
  cases args with
  | nil => exact .raise _
  | cons v rest =>
    cases rest with
    | nil =>
      exact .bind (.iterate (hargs v List.mem_cons_self)) fun _ hitems =>
        .bestOfAll budget name wanted hitems.values
    | cons v' rest => exact .bestOfAll budget name wanted hargs

protected theorem callRange (budget : Budget) (args : List Value) :
    KeepsLimit (callRange budget args) Value.InLimit := by
  refine .bind (.requireCount ..) fun _ _ => .bind (.ofExcept _) fun bounds _ => ?_
  obtain ⟨start, stop, step⟩ := rangeBounds bounds
  refine .guarded fun _ => .bind (.charge ..) fun _ _ => .guarded fun hroom => .newList ⟨?_, ?_⟩
  · simpa [arithmeticRange] using hroom
  · intro v hv
    obtain ⟨k, -, rfl⟩ := List.mem_map.mp hv
    exact True.intro

protected theorem toInteger (v : Value) : KeepsLimit (toInteger v) Value.InLimit := by
  unfold toInteger
  split <;> split <;> first | exact .pure True.intro | exact .raise _

protected theorem toDouble (v : Value) : KeepsLimit (toDouble v) Value.InLimit := by
  unfold toDouble
  split
  · exact .pure True.intro
  all_goals split <;> first | exact .pure True.intro | exact .raise _

protected theorem absolute (v : Value) : KeepsLimit (absolute v) Value.InLimit := by
  unfold absolute
  split
  · exact .pure True.intro
  · split
    · exact .raise _
    · split <;> first | exact .pure True.intro | exact .raise _

protected theorem soleItems (budget : Budget) (name : String) (hargs : ∀ v ∈ args, v.InLimit) :
    KeepsLimit (soleItems budget name args) fun items => Items.InLimit items.toList :=
  .bind (.requireCount ..) fun _ _ => .bind (.iterate (.headD hargs)) fun _ hitems =>
    .bind (.charge ..) fun _ _ => .pure hitems

/-- All built-in functions but `str`. -/
protected theorem callBuiltin (budget : Budget) {builtin : Builtin} (hbuiltin : builtin ≠ .str)
    (hargs : ∀ v ∈ args, v.InLimit) :
    KeepsLimit (callBuiltin budget builtin args) Value.InLimit := by
  cases builtin with
  | len =>
    exact .bind (.requireCount ..) fun _ _ => .bind (.charge ..) fun _ _ => .lengthOf _
  | sum =>
    have htotal : (args.getD 1 (.int 0)).InLimit := .getD hargs 1 True.intro
    exact .bind (.requireCount ..) fun _ _ => .bind (.iterate (.headD hargs)) fun _ hitems =>
      .bind (.charge ..) fun _ _ => .addAll htotal hitems.values
  | range => exact .callRange ..
  | min => exact .callExtremum budget _ _ hargs
  | max => exact .callExtremum budget _ _ hargs
  | abs => exact .bind (.requireCount ..) fun _ _ => .bind (.charge ..) fun _ _ => .absolute _
  | list =>
    have hmake (items : Array Value) (hitems : Items.InLimit items.toList) : KeepsLimit (do
        ProgramBreeding.charge budget (cost items.size)
        ProgramBreeding.newList items) Value.InLimit :=
      .bind (.charge ..) fun _ _ => .newList hitems
    refine .bind (.requireCount ..) fun _ _ => ?_
    cases args with
    | nil => exact .bind (.pure .nil) hmake
    | cons v rest => exact .bind (.iterate (hargs v List.mem_cons_self)) hmake
  | sorted =>
    refine .bind (.soleItems budget _ hargs) fun items hitems => .bind .get fun s _ =>
      .bind (.ofExcept _) fun sorted hsorted => .newList ?_
    exact hitems.of_perm (sortValues_perm hsorted)
  | any =>
    exact .bind (.soleItems budget _ hargs) fun _ _ => .bind .get fun _ _ => .pure True.intro
  | all =>
    exact .bind (.soleItems budget _ hargs) fun _ _ => .bind .get fun _ _ => .pure True.intro
  | print =>
    exact .bind .get fun _ _ => .bind (.charge ..) fun _ _ => .bind (.writeLine _) fun _ _ =>
      .pure True.intro
  | int =>
    refine .bind (.requireCount ..) fun _ _ => .bind (.charge ..) fun _ _ => ?_
    cases args with
    | nil => exact .pure True.intro
    | cons v rest => exact .toInteger v
  | float =>
    refine .bind (.requireCount ..) fun _ _ => .bind (.charge ..) fun _ _ => ?_
    cases args with
    | nil => exact .pure True.intro
    | cons v rest => exact .toDouble v
  | str => exact absurd rfl hbuiltin
  | bool =>
    refine .bind (.requireCount ..) fun _ _ => .bind (.charge ..) fun _ _ => ?_
    cases args with
    | nil => exact .pure True.intro
    | cons v rest => exact .bind (.truth v) fun _ _ => .pure True.intro

end KeepsLimit

/-! ### Methods -/

/-- Calls of methods that do not check what they build. -/
def isUncheckedCall (method : String) (count : Nat) : Bool :=
  ["insert", "upper", "lower"].contains method || (method == "split" && count != 0)

theorem EndsInLimit.itemsOf (ref : Ref) {s : State} (hs : s.InLimit) :
    EndsInLimit (fun items t => t = s ∧ items = s.heap.items ref) ((itemsOf ref).run s) :=
  .ok hs ⟨rfl, rfl⟩

theorem EndsInLimit.soleArgument {method : String} {args : List Value}
    (hargs : ∀ v ∈ args, v.InLimit) {s : State} (hs : s.InLimit) :
    EndsInLimit (fun v t => t = s ∧ v.InLimit) ((soleArgument method args).run s) := by
  unfold ProgramBreeding.soleArgument requireCount
  split
  · exact .ok hs ⟨rfl, .headD hargs⟩
  · split <;> exact .error hs

/-- Adding to a list after a look at its size. -/
theorem EndsInLimit.grow {budget : Budget} {units : UInt64} {p : Prop} [Decidable p] {ref : Ref}
    {f : Array Value → Array Value} {s : State} (hs : s.InLimit)
    (hf : ¬ p → Items.InLimit (f (s.heap.items ref)).toList) :
    EndsInLimit (fun v _ => v.InLimit) (EStateM.run (do
      charge budget units
      if p then raise .listTooLarge
      updateList ref f
      return Value.none) s) := by
  refine (EndsInLimit.charge budget units hs).bind fun _ t ht hheap => ?_
  by_cases hp : p
  · rw [if_pos hp]
    exact .error ht
  · rw [if_neg hp]
    exact .ok (ht.modify (by rw [hheap]; exact hf hp)) True.intro

namespace KeepsLimit

variable {args : List Value}

protected theorem soleArgument (method : String) (hargs : ∀ v ∈ args, v.InLimit) :
    KeepsLimit (soleArgument method args) Value.InLimit :=
  .bind (.requireCount ..) fun _ _ => .pure (.headD hargs)

protected theorem requireNone (method : String) (args : List Value) :
    KeepsLimit (requireNone method args) fun _ => True :=
  .requireCount ..

protected theorem pop (ref : Ref) (position : Nat) : KeepsLimit (do
    let v := (← itemsOf ref).getD position .none
    updateList ref fun items => items.eraseIdxIfInBounds position
    return v) Value.InLimit := by
  refine .bind (.itemsOf ref) fun items hitems => .bind (.updateList fun items h => ?_) fun _ _ =>
    .pure (getD_inLimit hitems position)
  have hsub : (items.eraseIdxIfInBounds position).toList.Sublist items.toList := by
    rw [Array.toList_eraseIdxIfInBounds]
    exact List.eraseIdx_sublist ..
  exact h.of_subset hsub.length_le hsub.subset

protected theorem callListMethod (budget : Budget) (ref : Ref) {method : String}
    (hmethod : isUncheckedCall method args.length = false) (hargs : ∀ v ∈ args, v.InLimit) :
    KeepsLimit (callListMethod budget ref method args) Value.InLimit := by
  refine ⟨fun s hs => (EndsInLimit.itemsOf ref hs).bind fun items t _ hread => ?_⟩
  obtain ⟨rfl, rfl⟩ := hread
  have hitems := hs.items ref
  dsimp only
  split
  -- The arguments are read without a change of the state, so the list still has the size that was checked.
  · refine (EndsInLimit.soleArgument hargs hs).bind fun v t _ hv => ?_
    obtain ⟨rfl, hv⟩ := hv
    refine EndsInLimit.grow hs fun hroom => ?_
    rw [Array.toList_push]
    exact hitems.append ⟨by simp [maxSequence], by simpa using hv⟩ (by simp; omega)
  · refine (EndsInLimit.soleArgument hargs hs).bind fun v t _ hv => ?_
    obtain ⟨rfl, hv⟩ := hv
    refine (EndsInLimit.iterate hv hs).bind fun extra t _ hextra => ?_
    obtain ⟨rfl, hextra⟩ := hextra
    refine EndsInLimit.grow hs fun hroom => ?_
    rw [Array.toList_append]
    exact hitems.append hextra (by simpa using hroom)
  all_goals refine KeepsLimit.ends ?_ _ hs
  · refine .bind (.requireCount ..) fun _ _ => .bind (.charge ..) fun _ _ => .guarded fun _ => ?_
    cases args with
    | nil => exact .bind (.pure (Q := fun _ => True) trivial) fun _ _ => .pop ref _
    | cons index rest => exact .bind (.ofExcept _) fun position _ => .pop ref position
  · cases hmethod
  · refine .bind (.soleArgument _ hargs) fun v _ => .bind (.charge ..) fun _ _ => .bind .get fun s _ => ?_
    split
    · exact .countValue _
    · exact .raise _
  · exact .bind (.soleArgument _ hargs) fun v _ => .bind (.charge ..) fun _ _ =>
      .bind .get fun s _ => .countValue _
  · refine .bind (.requireNone ..) fun _ _ => .bind (.charge ..) fun _ _ =>
      .bind (.updateList fun items h => ?_) fun _ _ => .pure True.intro
    rw [Array.toList_reverse]
    exact h.of_perm (List.reverse_perm _)
  · refine .bind (.requireNone ..) fun _ _ => .bind (.charge ..) fun _ _ => .bind .get fun s hs' =>
      .bind (.ofExcept _) fun sorted hsorted => .bind (.updateList fun _ _ => ?_) fun _ _ =>
        .pure True.intro
    exact (hs'.items ref).of_perm (sortValues_perm hsorted)
  · exact .bind (.requireNone ..) fun _ _ => .bind (.charge ..) fun _ _ =>
      .bind (.itemsOf ref) fun _ h => .newList h
  · exact .raise _

/-! #### Texts -/

protected theorem boundedText (text : String) : KeepsLimit (boundedText text) Value.InLimit :=
  .ite (fun _ => .raise _) fun hroom =>
    .pure ((length_le_utf8ByteSize text).trans (Nat.not_lt.mp hroom))

protected theorem newTexts {texts : List String} (hlength : texts.length ≤ maxSequence)
    (htexts : ∀ text ∈ texts, text.length ≤ maxSequence) :
    KeepsLimit (newTexts texts) Value.InLimit :=
  .newList ⟨by rwa [List.length_map], fun v hv => by
    obtain ⟨text, htext, rfl⟩ := List.mem_map.mp hv
    exact htexts text htext⟩

protected theorem callTextMethod (budget : Budget) {text : String}
    (htext : text.length ≤ maxSequence) {method : String}
    (hmethod : isUncheckedCall method args.length = false) (hargs : ∀ v ∈ args, v.InLimit) :
    KeepsLimit (callTextMethod budget text method args) Value.InLimit := by
  refine .bind (.charge ..) fun _ _ => ?_
  split
  · cases hmethod
  · cases hmethod
  · exact .bind (.requireNone ..) fun _ _ => .pure ((Text.length_trim_le text).trans htext)
  · refine .bind (.requireCount ..) fun _ _ => ?_
    cases args with
    | nil =>
      exact .newTexts ((Text.length_words_le text).trans htext) fun word hword =>
        (Text.length_le_of_mem_words hword).trans htext
    | cons v rest => cases hmethod
  · exact .bind (.soleArgument _ hargs) fun v hv => .bind (.iterate hv) fun items _ =>
      .bind (.charge ..) fun _ _ => .bind (.ofExcept _) fun parts _ => .boundedText _
  · exact .bind (.soleArgument _ hargs) fun v _ => .bind (.ofExcept _) fun start _ => .pure True.intro
  · exact .bind (.soleArgument _ hargs) fun v _ => .bind (.ofExcept _) fun finish _ => .pure True.intro
  · exact .bind (.requireCount ..) fun _ _ => .bind (.ofExcept _) fun pattern _ =>
      .bind (.ofExcept _) fun replacement _ => .guarded fun _ => .boundedText _
  · exact .raise _

/-- All methods but those that do not check what they build. -/
protected theorem callMethod (budget : Budget) {receiver : Value} (hreceiver : receiver.InLimit)
    {method : String} (hmethod : isUncheckedCall method args.length = false)
    (hargs : ∀ v ∈ args, v.InLimit) :
    KeepsLimit (callMethod budget receiver method args) Value.InLimit := by
  cases receiver with
  | list ref => exact .callListMethod budget ref hmethod hargs
  | str text => exact .callTextMethod budget hreceiver hmethod hargs
  | _ => exact .raise _

end KeepsLimit

end ProgramBreeding

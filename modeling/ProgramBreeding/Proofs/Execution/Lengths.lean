import ProgramBreeding.Proofs.Execution.Bindings
import ProgramBreeding.Proofs.Execution.Sizes
import ProgramBreeding.Proofs.Execution.Steady
import ProgramBreeding.Rule.Length

/-!
# Actions that change the length of no list

Most of what a program does makes new lists at most, or puts other items into lists that are there.  What a
variable holds has the same length afterwards, unless the variable is given another value.

## Main definitions

* `State.SameLengths` — the same scopes but for some variables, and the same lengths of lists.
* `State.Leaves` — states in which some names are left to the built-in functions.
* `KeepsLengths` — actions that change some variables and the length of no list.
* `KeepsLengths.callBuiltin`, `KeepsLengths.callMethod` — built-in functions and most methods.
* `KeepsLengths.runComprehension`, `KeepsLengths.forRounds`, `KeepsLengths.whileRounds` — loops.

## Design notes

What a call does depends on what its name stands for, so an action keeps lengths only as long as the names that a
program leaves alone stand for built-in functions.  It changes none of them, and so the actions compose.
-/

namespace ProgramBreeding

variable {α β : Type}

/-! ### More actions that only look -/

namespace Inspects

protected theorem truth (v : Value) : Inspects (truth v) := .bind .get fun _ => .pure _

protected theorem getVar (name : String) : Inspects (getVar name) := by
  refine .bind .get fun s => ?_
  cases s.lookup name with
  | none => exact .raise _
  | some v => exact .pure v

protected theorem numberOp (op : BinaryOp) (a b : Value) : Inspects (numberOp op a b) := by
  unfold numberOp
  split
  · exact .bind (.ofExcept _) fun _ => .pure _
  · exact .raise _

protected theorem repeatText (text : String) (count : Int64) : Inspects (repeatText text count) :=
  .bind (.ofExcept _) fun _ => .pure _

protected theorem signOp (op : UnaryOp) (a : Value) : Inspects (signOp op a) := by
  have hsign (op : UnaryOp) : Inspects (signValue op a) := by
    unfold signValue
    split
    · exact .bind (.ofExcept _) fun _ => .pure _
    · exact .raise _
  cases op with
  | not => exact .bind (.truth a) fun _ => .pure _
  | _ => exact hsign _

protected theorem elementAt (container index : Value) : Inspects (elementAt container index) := by
  cases container with
  | list ref => exact .bind (.itemsOf ref) fun _ => .bind (.ofExcept _) fun _ => .pure _
  | str text => exact .bind (.ofExcept _) fun _ => .pure _
  | _ => exact .raise _

protected theorem compare (op : CompareOp) (a b : Value) :
    Inspects (do return Value.bool (← ofExcept (compareValues (← get).heap op a b))) :=
  .bind .get fun _ => .bind (.ofExcept _) fun _ => .pure _

protected theorem lengthOf (v : Value) : Inspects (lengthOf v) := by
  cases v with
  | list ref => exact .bind (.itemsOf ref) fun _ => .countValue _
  | str text => exact .countValue _
  | _ => exact .raise _

protected theorem soleItems (budget : Budget) (name : String) (args : List Value) :
    Inspects (soleItems budget name args) :=
  .bind (.requireCount ..) fun _ => .bind (.iterate _) fun _ => .bind (.charge ..) fun _ => .pure _

protected theorem bestOf (wanted : Ordering) (best : Value) (vs : List Value) : Inspects (bestOf wanted best vs) := by
  induction vs generalizing best with
  | nil => exact .pure best
  | cons v rest ih => exact .bind .get fun _ => .bind (.ofExcept _) fun _ => ih _

protected theorem bestOfAll (budget : Budget) (name : String) (wanted : Ordering) (items : List Value) :
    Inspects (bestOfAll budget name wanted items) := by
  refine .bind (.charge ..) fun _ => ?_
  cases items with
  | nil => exact .raise _
  | cons first rest => exact .bestOf ..

protected theorem callExtremum (budget : Budget) (name : String) (wanted : Ordering) (args : List Value) :
    Inspects (callExtremum budget name wanted args) := by
  cases args with
  | nil => exact .raise _
  | cons v rest =>
    cases rest with
    | nil => exact .bind (.iterate v) fun _ => .bestOfAll ..
    | cons v' rest => exact .bestOfAll budget name wanted _

protected theorem toInteger (v : Value) : Inspects (toInteger v) := by
  unfold toInteger
  split <;> split
  all_goals first | exact .pure _ | exact .raise _

protected theorem toDouble (v : Value) : Inspects (toDouble v) := by
  unfold toDouble
  split
  · exact .pure _
  all_goals split
  all_goals first | exact .pure _ | exact .raise _

protected theorem absolute (v : Value) : Inspects (absolute v) := by
  unfold absolute
  split
  · exact .pure _
  · split
    · exact .raise _
    · split
      · exact .pure _
      · exact .raise _

end Inspects

/-! ### The lengths of lists -/

/-- The same scopes but for some variables of the open one, and every list that was there has as many items as it
had. -/
structure State.SameLengths (changed : String → Prop) (s t : State) : Prop where
  scopes : s.SameBut changed t
  grows : s.heap.size ≤ t.heap.size
  lengths : ∀ ref < s.heap.size, (t.heap.items ref).size = (s.heap.items ref).size

/-- All names but some are left to the built-in functions. -/
def State.Leaves (taken : List String) (s : State) : Prop :=
  ∀ x ∉ taken, s.globals.get? x = none ∧ s.scope.get? x = none

namespace State

variable {s t u : State} {changed : String → Prop} {x : String}

theorem updateScope_heap (f : Scope → Scope) (s : State) : (s.updateScope f).heap = s.heap := by
  unfold updateScope
  split <;> rfl

/-- The variables of the module and of the open scope decide what a name stands for. -/
theorem lookup_eq (s : State) (x : String) :
    s.lookup x = ((s.scope.get? x).or (s.globals.get? x)).or ((Builtin.ofName? x).map .builtin) := by
  unfold lookup scope
  cases s.frames with
  | nil => cases hglobal : s.globals.get? x <;> simp [hglobal]
  | cons frame rest => rfl

theorem Leaves.lookup_eq {taken : List String} (h : s.Leaves taken) (hx : x ∉ taken) :
    s.lookup x = (Builtin.ofName? x).map .builtin := by
  rw [State.lookup_eq, (h x hx).1, (h x hx).2]
  rfl

theorem SameBut.get?_eq (h : s.SameBut changed t) (hx : ¬ changed x) :
    t.globals.get? x = s.globals.get? x ∧ t.scope.get? x = s.scope.get? x := by
  unfold scope
  cases h with
  | outside hs ht hglobals =>
    rw [hs, ht]
    exact ⟨hglobals x hx, hglobals x hx⟩
  | inside hs ht hframe _ hglobals =>
    rw [hs, ht]
    exact ⟨hglobals x, hframe x hx⟩

theorem SameBut.lookup_eq (h : s.SameBut changed t) (hx : ¬ changed x) : t.lookup x = s.lookup x := by
  rw [State.lookup_eq, State.lookup_eq, (h.get?_eq hx).1, (h.get?_eq hx).2]

namespace SameLengths

theorem trans (h : s.SameLengths changed t) (h' : t.SameLengths changed u) : s.SameLengths changed u where
  scopes := h.scopes.trans h'.scopes
  grows := h.grows.trans h'.grows
  lengths ref href := (h'.lengths ref (href.trans_le h.grows)).trans (h.lengths ref href)

/-- Scopes change only. -/
theorem of_heap_eq (h : s.SameBut changed t) (hheap : t.heap = s.heap) : s.SameLengths changed t where
  scopes := h
  grows := hheap ▸ Nat.le_refl _
  lengths _ _ := by rw [hheap]

theorem of_eq (hglobals : t.globals = s.globals) (hframes : t.frames = s.frames) (hheap : t.heap = s.heap) :
    s.SameLengths changed t :=
  of_heap_eq (.of_eq hglobals hframes) hheap

theorem put (hx : changed x) (found : Option Value) :
    s.SameLengths changed (s.updateScope fun scope => scope.put x found) := by
  refine of_heap_eq (.updateScope _ fun y hy => ?_) (State.updateScope_heap _ s)
  rw [Scope.get?_put, if_neg]
  rintro rfl
  exact hy hx

theorem of_sameButMeter (h : s.SameButMeter t) : s.SameLengths changed t := by
  unfold SameButMeter at h
  rw [h]
  exact .of_eq rfl rfl rfl

/-- What changes lists at most, and no list that was there. -/
theorem of_sameButList {receiver : Value} (h : s.SameButList receiver t) (hreceiver : ∀ ref, receiver ≠ .list ref) :
    s.SameLengths changed t where
  scopes := by
    rw [h.frame]
    exact .of_eq rfl rfl
  grows := h.grows
  lengths ref href := by rw [h.items ref href (hreceiver ref)]

theorem push (items : Array Value) : s.SameLengths changed { s with heap := s.heap.push items } := by
  have hpush : s.SameButList .none { s with heap := s.heap.push items } := .push items
  exact of_sameButList hpush fun ref => by simp

theorem modify (ref : Ref) {f : Array Value → Array Value}
    (hf : (f (s.heap.items ref)).size = (s.heap.items ref).size) :
    s.SameLengths changed { s with heap := s.heap.modify ref f } where
  scopes := .of_eq rfl rfl
  grows := Nat.le_of_eq Array.size_modify.symm
  lengths other _ := by
    rw [Heap.items_modify]
    split
    · rename_i hsame
      rw [hsame.1, hf]
    · rfl

end SameLengths

theorem SameLengths.leaves {taken : List String} (h : s.SameLengths changed t) (hs : s.Leaves taken)
    (hchanged : ∀ x, changed x → x ∈ taken) : t.Leaves taken := by
  intro x hx
  obtain ⟨hglobals, hscope⟩ := h.scopes.get?_eq (mt (hchanged x) hx)
  rw [hglobals, hscope]
  exact hs x hx

end State

/-- Which names are taken, and which of them are variables of the open scope that may change. -/
structure NameUse where
  taken : List String
  changed : String → Prop
  mem_taken : ∀ {x}, changed x → x ∈ taken

/-- An action that changes some variables of the open scope at most and the length of no list, as long as the names
that are not taken stand for built-in functions. -/
structure KeepsLengths (N : NameUse) (m : Exec α) : Prop where
  ends : Leads (fun s t => s.Leaves N.taken → s.SameLengths N.changed t) m

variable {N : NameUse}

namespace KeepsLengths

variable {m n : Exec α} {f : α → Exec β}

theorem sameLengths (h : KeepsLengths N m) {s t : State} {a : α} (hs : s.Leaves N.taken) (hrun : m.run s = .ok a t) :
    s.SameLengths N.changed t := by
  have hend := h.ends s hs
  rwa [hrun] at hend

theorem leaves (h : KeepsLengths N m) {s t : State} {a : α} (hs : s.Leaves N.taken) (hrun : m.run s = .ok a t) :
    t.Leaves N.taken :=
  (h.sameLengths hs hrun).leaves hs fun _ => N.mem_taken

/-! ### Composed actions -/

theorem of_inspects (h : Inspects m) : KeepsLengths N m :=
  ⟨fun s _ => .of_sameButMeter (h.ends s)⟩

protected theorem pure (a : α) : KeepsLengths N (pure a) := of_inspects (.pure a)

protected theorem raise (fault : Fault) : KeepsLengths N (raise fault : Exec α) := of_inspects (.raise fault)

protected theorem charge (budget : Budget) (units : UInt64) : KeepsLengths N (charge budget units) :=
  of_inspects (.charge budget units)

protected theorem truth (v : Value) : KeepsLengths N (truth v) := of_inspects (.truth v)

protected theorem bind (hm : KeepsLengths N m) (hf : ∀ a, KeepsLengths N (f a)) : KeepsLengths N (m >>= f) := by
  refine ⟨.bind (fun s t u h h' hs => ?_) hm.ends fun a => (hf a).ends⟩
  exact (h hs).trans (h' ((h hs).leaves hs fun _ => N.mem_taken))

protected theorem ite {p : Prop} [Decidable p] (hm : KeepsLengths N m) (hn : KeepsLengths N n) :
    KeepsLengths N (if p then m else n) := by
  split
  · exact hm
  · exact hn

/-- After a look, only the rest counts. -/
protected theorem after (hm : Inspects m) (hf : ∀ a, KeepsLengths N (f a)) : KeepsLengths N (m >>= f) :=
  (of_inspects hm).bind hf

/-- What comes after a check. -/
protected theorem guarded {p : Prop} [Decidable p] {fault : Fault} {f : PUnit → Exec α} (hm : KeepsLengths N m) :
    KeepsLengths N (if p then raise fault >>= f else m) := by
  split
  · exact .of_inspects ⟨fun _ => .rfl⟩
  · exact hm

/-! ### Lists and variables -/

protected theorem newList (items : Array Value) : KeepsLengths N (newList items) := ⟨fun _ _ => .push items⟩

protected theorem updateList (ref : Ref) {f : Array Value → Array Value} (hf : ∀ items, (f items).size = items.size) :
    KeepsLengths N (updateList ref f) :=
  ⟨fun _ _ => .modify ref (hf _)⟩

/-- The items of a list are put in order. -/
protected theorem sortList (ref : Ref) : KeepsLengths N (do
    let heap := (← get).heap
    let sorted ← ofExcept (sortValues heap (heap.items ref).toList)
    updateList ref fun _ => sorted.toArray
    return Value.none) := by
  refine ⟨fun s _ => ?_⟩
  rw [run_bind_ok (show (get : Exec State).run s = .ok s s from rfl)]
  dsimp only
  cases hsorted : sortValues s.heap (s.heap.items ref).toList with
  | error fault => exact .of_eq rfl rfl rfl
  | ok sorted =>
    refine .modify ref ?_
    rw [List.size_toArray, (sortValues_perm hsorted).length_eq, Array.length_toList]

protected theorem writeLine (line : String) : KeepsLengths N (writeLine line) := by
  refine ⟨fun s _ => ?_⟩
  show s.SameLengths _ (if _ then _ else _)
  split <;> exact .of_eq rfl rfl rfl

protected theorem setVar {x : String} (v : Value) (hx : N.changed x) : KeepsLengths N (setVar x v) := by
  refine ⟨fun s _ => .of_heap_eq (sameBut_invariant.setVar N.changed v s hx) ?_⟩
  exact State.updateScope_heap _ s

/-- A variable that may change is free meanwhile. -/
protected theorem shielding {x : String} (hx : N.changed x) (hm : KeepsLengths N m) :
    KeepsLengths N (shielding x m) := by
  refine ⟨fun s hs => ?_⟩
  rw [shielding_run, endState_endIn]
  have hfree : s.SameLengths N.changed (s.updateScope fun scope => scope.put x none) := .put hx none
  have hinner := hm.ends _ (hfree.leaves hs fun _ => N.mem_taken)
  exact (hfree.trans hinner).trans (.put hx _)

/-! ### Operators -/

protected theorem binaryOp (op : BinaryOp) (a b : Value) : KeepsLengths N (binaryOp op a b) := by
  have hoperates := binaryOp_operates op a b
  generalize binaryOp op a b = m at hoperates
  cases hoperates with
  | number => exact of_inspects (.numberOp ..)
  | join => exact .ite (.raise _) (.pure _)
  | append => exact .after (.itemsOf _) fun _ => .after (.itemsOf _) fun _ => .guarded (.newList _)
  | repeatText => exact of_inspects (.repeatText ..)
  | repeatList => exact .after (.itemsOf _) fun _ => .after (.ofExcept _) fun _ => .newList _

protected theorem addAll (total : Value) (vs : List Value) : KeepsLengths N (addAll total vs) := by
  induction vs generalizing total with
  | nil => exact .pure total
  | cons v rest ih => exact .bind (.binaryOp ..) fun total => ih total

/-- An item is replaced by another one. -/
protected theorem storeItem (container index value : Value) : KeepsLengths N (storeItem container index value) := by
  cases container with
  | list ref =>
    refine .after (.itemsOf ref) fun _ => .after (.ofExcept _) fun _ => .updateList ref fun items => ?_
    exact Array.size_setIfInBounds
  | _ => exact .raise _

/-! ### Calls -/

protected theorem callRange (budget : Budget) (args : List Value) : KeepsLengths N (callRange budget args) := by
  refine .after (.requireCount ..) fun _ => .after (.ofExcept _) fun bounds => ?_
  obtain ⟨start, stop, step⟩ := rangeBounds bounds
  exact .guarded (.bind (.charge ..) fun _ => .guarded (.newList _))

/-- Built-in functions make new lists at most. -/
protected theorem callBuiltin (budget : Budget) (builtin : Builtin) (args : List Value) :
    KeepsLengths N (callBuiltin budget builtin args) := by
  cases builtin with
  | len => exact .after (.requireCount ..) fun _ => .bind (.charge ..) fun _ => of_inspects (.lengthOf _)
  | sum =>
    exact .after (.requireCount ..) fun _ => .after (.iterate _) fun _ => .bind (.charge ..) fun _ => .addAll ..
  | range => exact .callRange budget args
  | min | max => exact of_inspects (.callExtremum ..)
  | abs => exact .after (.requireCount ..) fun _ => .bind (.charge ..) fun _ => of_inspects (.absolute _)
  | list =>
    have hmake (items : Array Value) : KeepsLengths N (do
        ProgramBreeding.charge budget (cost items.size)
        newList items) := .bind (.charge ..) fun _ => .newList _
    refine .after (.requireCount ..) fun _ => ?_
    cases args with
    | nil => exact .bind (.pure _) hmake
    | cons v rest => exact .after (.iterate v) hmake
  | sorted =>
    exact .after (.soleItems ..) fun _ => .after .get fun _ => .after (.ofExcept _) fun _ => .newList _
  | any | all => exact .after (.soleItems ..) fun _ => .after .get fun _ => .pure _
  | print => exact .after .get fun _ => .bind (.charge ..) fun _ => .bind (.writeLine _) fun _ => .pure _
  | int =>
    refine .after (.requireCount ..) fun _ => .bind (.charge ..) fun _ => ?_
    cases args with
    | nil => exact .pure _
    | cons v rest => exact of_inspects (.toInteger v)
  | float =>
    refine .after (.requireCount ..) fun _ => .bind (.charge ..) fun _ => ?_
    cases args with
    | nil => exact .pure _
    | cons v rest => exact of_inspects (.toDouble v)
  | str => exact .after (.requireCount ..) fun _ => .after .get fun _ => .bind (.charge ..) fun _ => .pure _
  | bool =>
    refine .after (.requireCount ..) fun _ => .bind (.charge ..) fun _ => ?_
    cases args with
    | nil => exact .pure _
    | cons v rest => exact .bind (.truth v) fun _ => .pure _

/-- Most methods of lists move items or look at them. -/
protected theorem callListMethod (budget : Budget) (ref : Ref) {method : String} (args : List Value)
    (hmethod : method ∉ resizingMethods) : KeepsLengths N (callListMethod budget ref method args) := by
  refine .after (.itemsOf ref) fun items => ?_
  dsimp only
  split
  iterate 4 exact absurd (by simp [resizingMethods]) hmethod
  · -- index
    refine .after (.soleArgument ..) fun v => .bind (.charge ..) fun _ => .after .get fun s => ?_
    split
    · exact of_inspects (.countValue _)
    · exact .raise _
  · -- count
    exact .after (.soleArgument ..) fun v => .bind (.charge ..) fun _ => .after .get fun _ =>
      of_inspects (.countValue _)
  · -- reverse
    refine .after (.requireNone ..) fun _ => .bind (.charge ..) fun _ => .bind (.updateList ref ?_) fun _ => .pure _
    exact fun items => Array.size_reverse
  · -- sort
    exact .after (.requireNone ..) fun _ => .bind (.charge ..) fun _ => .sortList ref
  · -- copy
    exact .after (.requireNone ..) fun _ => .bind (.charge ..) fun _ => .after (.itemsOf ref) fun _ => .newList _
  · exact .raise _

/-- A text does not change. -/
protected theorem callTextMethod (budget : Budget) (text method : String) (args : List Value) :
    KeepsLengths N (callTextMethod budget text method args) := by
  have hcommits : Commits .none (ProgramBreeding.callTextMethod budget text method args) :=
    .callTextMethod budget method args text
  refine ⟨fun s _ => ?_⟩
  have hsettled := hcommits.settled s
  generalize (ProgramBreeding.callTextMethod budget text method args).run s = r at hsettled
  cases hsettled with
  | done h => exact .of_sameButList h fun ref => by simp
  | undone h => exact .of_sameButMeter h

protected theorem callMethod (budget : Budget) (receiver : Value) {method : String} (args : List Value)
    (hmethod : method ∉ resizingMethods) : KeepsLengths N (callMethod budget receiver method args) := by
  cases receiver with
  | list ref => exact .callListMethod budget ref args hmethod
  | str text => exact .callTextMethod budget text method args
  | _ => exact .raise _

/-! ### Loops -/

section

variable {budget : Budget} {x : String} {cond : Option (Exec Value)} {element test : Exec Value} {body : Exec Flow}

/-- By induction on the items. -/
protected theorem collect (hx : N.changed x) (hcond : ∀ c, cond = some c → KeepsLengths N c)
    (helement : KeepsLengths N element) (items found : List Value) :
    KeepsLengths N (collect budget x cond element found items) := by
  induction items generalizing found with
  | nil => exact .pure _
  | cons item rest ih =>
    refine .bind (.charge ..) fun _ => .bind (.setVar item hx) fun _ => ?_
    have hwanted (wanted : Bool) : KeepsLengths N (if wanted then do
        let v ← element
        ProgramBreeding.collect budget x cond element (v :: found) rest
      else ProgramBreeding.collect budget x cond element found rest) :=
      .ite (.bind helement fun v => ih (v :: found)) (ih found)
    cases cond with
    | none => exact .bind (.pure true) hwanted
    | some c => exact .bind (hcond c rfl) fun v => .bind (.truth v) hwanted

protected theorem runComprehension (hx : N.changed x) (hcond : ∀ c, cond = some c → KeepsLengths N c)
    (helement : KeepsLengths N element) (source : Value) :
    KeepsLengths N (runComprehension budget x cond element source) :=
  .after (.iterate source) fun _ => .bind (.shielding hx (.collect hx hcond helement _ _)) fun _ => .newList _

/-- By induction on the items. -/
protected theorem forRounds (hx : N.changed x) (hbody : KeepsLengths N body) (items : List Value) :
    KeepsLengths N (forRounds budget x body items) := by
  induction items with
  | nil => exact .pure _
  | cons item rest ih =>
    refine .bind (.charge ..) fun _ => .bind (.setVar item hx) fun _ => .bind hbody fun flow => ?_
    cases flow with
    | brk => exact .pure _
    | ret v => exact .pure _
    | next => exact ih
    | cont => exact ih

/-- By induction on the rounds that may still be made. -/
protected theorem whileRounds (htest : KeepsLengths N test) (hbody : KeepsLengths N body) (count : Nat) :
    KeepsLengths N (whileRounds budget test body count) := by
  induction count with
  | zero => exact of_inspects ⟨fun _ => .rfl⟩
  | succ count ih =>
    refine .bind (.charge ..) fun _ => .bind htest fun v => .bind (.truth v) fun b => ?_
    refine .ite (.bind hbody fun flow => ?_) ?_
    · cases flow with
      | brk => exact .pure _
      | ret v => exact .pure _
      | next => exact ih
      | cont => exact ih
    · exact .pure _

end

end KeepsLengths

end ProgramBreeding

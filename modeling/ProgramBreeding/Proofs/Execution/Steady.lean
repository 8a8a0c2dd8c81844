import ProgramBreeding.Proofs.Execution.Bindings
import ProgramBreeding.Proofs.Execution.Interruption
import ProgramBreeding.Proofs.Execution.Untouched

/-!
# Expressions that can be evaluated again

An expression that calls nothing and makes no list yields the same value whenever it is evaluated, as long as
the variables are the same and, if it looks at elements, the items of lists.  Nothing but the meter tells that
it was evaluated.

## Main definitions

* `Stateless` — actions that yield the same in all states.
* `State.Resembles` — states in which the variables are the same, and the items of lists if they matter.
* `Steady` — an action that yields a value, and yields it again in all states like this one.
* `Expr.isPlain` — expressions that call nothing and make no list.
* `Expr.eval_steady` — plain expressions are steady.

## Design notes

An arithmetic operation may make a list, but not one that can be an operand of another one that makes none, or
the index of an element.  So plain expressions are steady if they name a place, or if their value is no list.

Only lists that have items are compared: an element that was found once was found in such a list.
-/

namespace ProgramBreeding

variable {α β : Type}

/-! ### Actions that do not look at the state -/

/-- An action that yields the same in all states, and leaves them as they are, if it succeeds in one. -/
structure Stateless (m : Exec α) : Prop where
  again : ∀ s t a, m.run s = .ok a t → ∀ u, m.run u = .ok a u

namespace Stateless

protected theorem pure (a : α) : Stateless (pure a : Exec α) := by
  refine ⟨fun s t b h u => ?_⟩
  cases h
  rfl

protected theorem raise (fault : Fault) : Stateless (raise fault : Exec α) := by
  refine ⟨fun s t b h u => ?_⟩
  cases h

protected theorem ofExcept (x : Except Fault α) : Stateless (ofExcept x) := by
  cases x with
  | ok a => exact .pure a
  | error fault => exact .raise fault

protected theorem bind {m : Exec α} {f : α → Exec β} (hm : Stateless m) (hf : ∀ a, Stateless (f a)) :
    Stateless (m >>= f) := by
  refine ⟨fun s t b h u => ?_⟩
  obtain ⟨a, t', hfirst, hrest⟩ := run_bind_eq_ok h
  rw [run_bind_ok (hm.again s t' a hfirst u)]
  exact (hf a).again t' t b hrest u

protected theorem numberOp (op : BinaryOp) (a b : Value) : Stateless (numberOp op a b) := by
  unfold numberOp
  split
  · exact .bind (.ofExcept _) fun _ => .pure _
  · exact .raise _

protected theorem repeatText (text : String) (count : Int64) : Stateless (repeatText text count) :=
  .bind (.ofExcept _) fun _ => .pure _

protected theorem signValue (op : UnaryOp) (a : Value) : Stateless (signValue op a) := by
  unfold signValue
  split
  · exact .bind (.ofExcept _) fun _ => .pure _
  · exact .raise _

end Stateless

/-- Arithmetic is done with numbers only. -/
theorem numberOp_eq_ok {op : BinaryOp} {a b v : Value} {s t : State} (h : (numberOp op a b).run s = .ok v t)
    (ref : Ref) : a ≠ .list ref ∧ b ≠ .list ref := by
  unfold numberOp at h
  split at h
  · rename_i ha hb
    constructor
    · rintro rfl
      cases ha
    · rintro rfl
      cases hb
  · cases h

theorem signValue_eq_ok {op : UnaryOp} {a v : Value} {s t : State} (h : (signValue op a).run s = .ok v t)
    (ref : Ref) : a ≠ .list ref := by
  rintro rfl
  cases h

theorem repeatList_eq_ok {ref : Ref} {count : Int64} {v : Value} {s t : State}
    (h : (repeatList ref count).run s = .ok v t) : ∃ new, v = .list new := by
  obtain ⟨items, u, -, h⟩ := run_bind_eq_ok h
  obtain ⟨count, w, -, h⟩ := run_bind_eq_ok h
  cases h
  exact ⟨_, rfl⟩

/-- What an operator does with two values: arithmetic, or something with texts that are no lists, or something
that makes a list. -/
inductive Operates (op : BinaryOp) (a b : Value) : Exec Value → Prop
  | number : Operates op a b (numberOp op a b)
  | join (x y : String) (h : ∀ ref, a ≠ .list ref ∧ b ≠ .list ref) :
    Operates op a b (if maxSequence < x.utf8ByteSize + y.utf8ByteSize then raise .sequenceTooLarge
      else return .str (x ++ y))
  | append (x y : Ref) :
    Operates op a b (do
      let items := (← itemsOf x) ++ (← itemsOf y)
      if maxSequence < items.size then raise .sequenceTooLarge
      newList items)
  | repeatText (text : String) (count : Int64) (h : ∀ ref, a ≠ .list ref ∧ b ≠ .list ref) :
    Operates op a b (repeatText text count)
  | repeatList (ref : Ref) (count : Int64) : Operates op a b (repeatList ref count)

theorem binaryOp_operates (op : BinaryOp) (a b : Value) : Operates op a b (binaryOp op a b) := by
  have hint {v : Value} {count : Int64} (h : v.int? = some count) (ref : Ref) : v ≠ .list ref := by
    rintro rfl
    cases h
  unfold binaryOp
  split
  · exact .join _ _ (by simp)
  · exact .append _ _
  · cases hcount : b.int? with
    | some count => exact .repeatText _ count fun ref => ⟨by simp, hint hcount ref⟩
    | none => exact .number
  · cases hcount : a.int? with
    | some count => exact .repeatText _ count fun ref => ⟨hint hcount ref, by simp⟩
    | none => exact .number
  · cases b.int? with
    | some count => exact .repeatList _ count
    | none => exact .number
  · cases a.int? with
    | some count => exact .repeatList _ count
    | none => exact .number
  · exact .number

/-- An operator that makes no list is given none, and does not look at the state. -/
theorem binaryOp_eq_ok {op : BinaryOp} {a b v : Value} {s t : State} (h : (binaryOp op a b).run s = .ok v t)
    (hv : ∀ ref, v ≠ .list ref) :
    Stateless (binaryOp op a b) ∧ ∀ ref, a ≠ .list ref ∧ b ≠ .list ref := by
  have hoperates := binaryOp_operates op a b
  generalize binaryOp op a b = m at h hoperates ⊢
  cases hoperates with
  | number => exact ⟨.numberOp .., numberOp_eq_ok h⟩
  | join x y hno =>
    refine ⟨?_, hno⟩
    split
    · exact .raise _
    · exact .pure _
  | append x y =>
    obtain ⟨items, u, -, h⟩ := run_bind_eq_ok h
    obtain ⟨items', u', -, h⟩ := run_bind_eq_ok h
    dsimp only at h
    split at h
    · cases h
    · cases h
      exact absurd rfl (hv _)
  | repeatText text count hno => exact ⟨.repeatText .., hno⟩
  | repeatList ref count =>
    obtain ⟨new, rfl⟩ := repeatList_eq_ok h
    exact absurd rfl (hv new)

/-- There is no element in an empty sequence. -/
theorem indexWithin_zero (index : Value) : ∃ fault, indexWithin index 0 = .error fault := by
  unfold indexWithin
  cases index.int? with
  | none => exact ⟨_, rfl⟩
  | some raw =>
    refine ⟨.indexOutOfRange, if_neg ?_⟩
    rintro ⟨hle, hlt⟩
    exact absurd hle (Int.not_le.mpr hlt)

/-- An index is no list. -/
theorem elementAt_eq_ok {container index v : Value} {s t : State}
    (h : (elementAt container index).run s = .ok v t) (ref : Ref) : index ≠ .list ref := by
  rintro rfl
  cases container <;> cases h

/-! ### States that are like another one -/

namespace State

/-- States with the same variables as another one and, if lists matter, with the same items in all its lists
that have any. -/
structure Resembles (lists : Bool) (s u : State) : Prop where
  bindings : s.SameBut (fun _ => False) u
  items : lists = true → ∀ ref, s.heap.items ref ≠ #[] → u.heap.items ref = s.heap.items ref

namespace Resembles

variable {lists : Bool} {s t u w : State}

protected theorem rfl : s.Resembles lists s := ⟨.of_eq rfl rfl, fun _ _ _ => rfl⟩

theorem trans (h : s.Resembles lists t) (h' : t.Resembles lists u) : s.Resembles lists u where
  bindings := h.bindings.trans h'.bindings
  items hlists ref hne := by
    have hitems := h.items hlists ref hne
    rw [h'.items hlists ref (by rwa [hitems]), hitems]

theorem mono {lists' : Bool} (h : s.Resembles lists u) (himp : lists' = true → lists = true) :
    s.Resembles lists' u :=
  ⟨h.bindings, fun hlists => h.items (himp hlists)⟩

theorem of_meter (h : s.SameButMeter t) : s.Resembles lists t where
  bindings := by
    unfold SameButMeter at h
    rw [h]
    exact .of_eq rfl rfl
  items _ ref _ := by rw [h.heap_eq]

/-- The meter does not matter. -/
theorem move (h : s.Resembles lists u) (hs : s.SameButMeter t) (hu : u.SameButMeter w) :
    t.Resembles lists w := by
  unfold SameButMeter at hs hu
  have hts : t.SameButMeter s := by
    unfold SameButMeter
    rw [hs]
  exact (of_meter hts).trans (h.trans (of_meter hu))

theorem lookup_eq (h : s.Resembles lists u) (x : String) : u.lookup x = s.lookup x := by
  obtain ⟨hglobals, hframes⟩ := h.bindings.sameBindings
  unfold lookup
  rw [hglobals x]
  generalize s.frames = frames at hframes
  generalize u.frames = frames' at hframes
  cases hframes with
  | nil => rfl
  | cons hframe _ => rw [List.head?_cons, List.head?_cons, Option.bind_some, Option.bind_some, hframe x]

end Resembles

end State

/-! ### Steady actions -/

/-- The limits of a run: it is out of fuel, or somebody interrupts it, or it is aborted where sums are checked. -/
inductive Budget.Limits (budget : Budget) : Stop → Prop
  | fuel : Limits budget (.outOfFuel budget.fuel)
  | overflow (h : budget.checked = true) : Limits budget .overflow
  | interrupted {stop : Stop} (h : budget.Interrupts stop) : Limits budget stop

theorem charge_eq_error {budget : Budget} {units : UInt64} {s t : State} {stop : Stop}
    (h : (charge budget units).run s = .error stop t) : budget.Limits stop := by
  rw [charge_eq] at h
  dsimp only at h
  split at h
  · cases h
    exact .fuel
  · split at h
    · split at h
      · rename_i hoverflows
        cases h
        exact .overflow (Bool.and_eq_true_iff.mp hoverflows).1
      · split at h
        · rename_i hcancelled
          cases h
          exact .interrupted (.cancelled _ hcancelled)
        · split at h
          · rename_i hexpired
            cases h
            exact .interrupted (.deadline _ hexpired)
          · cases h
    · cases h

/-- How an action ends that changes the meter at most and yields a certain value, if the limits allow it. -/
inductive ComesTo (budget : Budget) (a : α) (s : State) : EStateM.Result Stop State α → Prop
  | ok {t : State} (h : s.SameButMeter t) : ComesTo budget a s (.ok a t)
  | limited {stop : Stop} {t : State} (h : budget.Limits stop) (ht : s.SameButMeter t) :
    ComesTo budget a s (.error stop t)

/-- An action that changes the meter at most and yields a certain value in all states that are like this one. -/
def Steady (budget : Budget) (lists : Bool) (m : Exec α) (a : α) (s : State) : Prop :=
  ∀ u, s.Resembles lists u → ComesTo budget a u (m.run u)

namespace Steady

variable {budget : Budget} {lists : Bool} {s t : State}

theorem sameButMeter {m : Exec α} {a b : α} (h : Steady budget lists m a s) (hrun : m.run s = .ok b t) :
    b = a ∧ s.SameButMeter t := by
  have hs := h s .rfl
  rw [hrun] at hs
  cases hs with
  | ok hs => exact ⟨rfl, hs⟩

theorem mono {lists' : Bool} {m : Exec α} {a : α} (h : Steady budget lists m a s)
    (himp : lists = true → lists' = true) : Steady budget lists' m a s :=
  fun u hu => h u (hu.mono himp)

theorem of_stateless {m : Exec α} {a : α} (h : Stateless m) (hrun : m.run s = .ok a t) :
    Steady budget lists m a s := by
  intro u _
  rw [h.again s t a hrun u]
  exact .ok .rfl

protected theorem bind {m : Exec α} {f : α → Exec β} {a : α} {b : β} (hm : Steady budget lists m a s)
    (hrun : m.run s = .ok a t) (hf : Steady budget lists (f a) b t) : Steady budget lists (m >>= f) b s := by
  have hst := (hm.sameButMeter hrun).2
  intro u hu
  have hfirst := hm u hu
  generalize hrun : m.run u = r at hfirst
  cases hfirst with
  | @ok u' hu' =>
    rw [run_bind_ok hrun]
    have hrest := hf u' (hu.move hst hu')
    generalize (f a).run u' = r at hrest
    cases hrest with
    | ok h => exact .ok (hu'.trans h)
    | limited h ht => exact .limited h (hu'.trans ht)
  | limited h ht =>
    rw [run_bind_error hrun]
    exact .limited h ht

protected theorem charge (units : UInt64) : Steady budget lists (charge budget units) () s := by
  intro u _
  have hend := (Inspects.charge budget units).ends u
  cases hrun : (ProgramBreeding.charge budget units).run u with
  | ok a t =>
    rw [hrun] at hend
    exact .ok hend
  | error stop t =>
    rw [hrun] at hend
    exact .limited (charge_eq_error hrun) hend

protected theorem getVar {x : String} {v : Value} (hrun : (getVar x).run s = .ok v t) :
    Steady budget lists (getVar x) v s := by
  intro u hu
  cases hvalue : s.lookup x with
  | none =>
    simp only [ProgramBreeding.getVar, EStateM.run_bind, EStateM.run_get, hvalue] at hrun
    cases hrun
  | some value =>
    have hvalue' : u.lookup x = some value := (hu.lookup_eq x).trans hvalue
    simp only [ProgramBreeding.getVar, EStateM.run_bind, EStateM.run_get, hvalue, EStateM.run_pure] at hrun
    simp only [ProgramBreeding.getVar, EStateM.run_bind, EStateM.run_get, hvalue', EStateM.run_pure]
    cases hrun
    exact .ok .rfl

/-- An element is found again if the items of lists are the same. -/
protected theorem elementAt {container index v : Value} (hrun : (elementAt container index).run s = .ok v t) :
    Steady budget true (elementAt container index) v s := by
  cases container with
  | list ref =>
    intro u hu
    have hget (w : State) : (ProgramBreeding.elementAt (.list ref) index).run w = (do
        let position ← ofExcept (indexWithin index (w.heap.items ref).size)
        return (w.heap.items ref).getD position .none : Exec Value).run w := rfl
    rw [hget] at hrun ⊢
    have hne : s.heap.items ref ≠ #[] := by
      intro hnil
      obtain ⟨fault, hfault⟩ := indexWithin_zero index
      rw [hnil, Array.size_empty, hfault] at hrun
      cases hrun
    rw [hu.items rfl ref hne]
    have hsame : Stateless (do
        let position ← ofExcept (indexWithin index (s.heap.items ref).size)
        return (s.heap.items ref).getD position .none : Exec Value) :=
      .bind (.ofExcept _) fun _ => .pure _
    exact of_stateless hsame hrun u hu
  | str text => exact of_stateless (.bind (.ofExcept _) fun _ => .pure _) hrun
  | _ => cases hrun

end Steady

/-! ### Plain expressions -/

namespace Expr

/-- Whether an expression names a variable or an element. -/
def isPlace : Expr Label → Bool
  | .name .. | .subscript .. => true
  | _ => false

/-- Whether an expression calls nothing and is made of names, constants, signs, arithmetic and elements. -/
def isPlain : Expr Label → Bool
  | .name .. | .constant .. => true
  | .unary _ op operand => op != .not && operand.isPlain
  | .binary _ _ left right => left.isPlain && right.isPlain
  | .subscript _ value index => value.isPlace && value.isPlain && index.isPlain
  | _ => false

/-- Whether a plain expression looks at elements. -/
def readsElements : Expr Label → Bool
  | .unary _ _ operand => operand.readsElements
  | .binary _ _ left right => left.readsElements || right.readsElements
  | .subscript .. => true
  | _ => false

/-- A plain expression that names a place is steady, and so is one whose value is no list. -/
theorem eval_steady (env : Env) : ∀ (x : Expr Label), x.isPlain = true → ∀ {s t : State} {v : Value},
    (x.eval env).run s = .ok v t → (x.isPlace = true ∨ ∀ ref, v ≠ .list ref) →
      Steady env.budget x.readsElements (x.eval env) v s
  | .name _ id, _, s, t, v, hrun, _ => by
    obtain ⟨_, s₁, hcharge, hget⟩ := run_bind_eq_ok hrun
    exact .bind (.charge 1) hcharge (.getVar hget)
  | .constant _ value, _, s, t, v, hrun, _ => by
    obtain ⟨_, s₁, hcharge, hpure⟩ := run_bind_eq_ok hrun
    exact .bind (.charge 1) hcharge (.of_stateless (.pure _) hpure)
  | .unary _ op operand, hplain, s, t, v, hrun, hv => by
    obtain ⟨_, s₁, hcharge, hrun⟩ := run_bind_eq_ok hrun
    obtain ⟨a, s₂, hoperand, hsign⟩ := run_bind_eq_ok hrun
    have hop : (op != .not) = true ∧ operand.isPlain = true := Bool.and_eq_true_iff.mp hplain
    have hvalue : signOp op a = signValue op a := by
      cases op with
      | not => cases hop.1
      | _ => rfl
    rw [hvalue] at hsign
    refine .bind (.charge 1) hcharge (.bind ?_ hoperand ?_)
    · exact operand.eval_steady env hop.2 hoperand (.inr (signValue_eq_ok hsign))
    · rw [hvalue]
      exact .of_stateless (.signValue op a) hsign
  | .binary _ op left right, hplain, s, t, v, hrun, hv => by
    obtain ⟨_, s₁, hcharge, hrun⟩ := run_bind_eq_ok hrun
    obtain ⟨a, s₂, hleft, hrun⟩ := run_bind_eq_ok hrun
    obtain ⟨b, s₃, hright, hop⟩ := run_bind_eq_ok hrun
    have hparts : left.isPlain = true ∧ right.isPlain = true := Bool.and_eq_true_iff.mp hplain
    have hno : ∀ ref, v ≠ .list ref := hv.resolve_left Bool.false_ne_true
    obtain ⟨hstateless, hoperands⟩ := binaryOp_eq_ok hop hno
    refine .bind (.charge 1) hcharge (.bind ?_ hleft (.bind ?_ hright (.of_stateless hstateless hop)))
    · exact (left.eval_steady env hparts.1 hleft (.inr fun ref => (hoperands ref).1)).mono
        fun h => Bool.or_eq_true_iff.mpr (.inl h)
    · exact (right.eval_steady env hparts.2 hright (.inr fun ref => (hoperands ref).2)).mono
        fun h => Bool.or_eq_true_iff.mpr (.inr h)
  | .subscript _ value index, hplain, s, t, v, hrun, _ => by
    obtain ⟨_, s₁, hcharge, hrun⟩ := run_bind_eq_ok hrun
    obtain ⟨container, s₂, hvalue, hrun⟩ := run_bind_eq_ok hrun
    obtain ⟨position, s₃, hindex, helement⟩ := run_bind_eq_ok hrun
    obtain ⟨hparts, hplain'⟩ : (value.isPlace && value.isPlain) = true ∧ index.isPlain = true :=
      Bool.and_eq_true_iff.mp hplain
    obtain ⟨hplace, hplain⟩ := Bool.and_eq_true_iff.mp hparts
    refine .bind (.charge 1) hcharge (.bind ?_ hvalue (.bind ?_ hindex (.elementAt helement)))
    · exact (value.eval_steady env hplain hvalue (.inl hplace)).mono fun _ => rfl
    · exact (index.eval_steady env hplain' hindex (.inr (elementAt_eq_ok helement))).mono fun _ => rfl

end Expr

end ProgramBreeding

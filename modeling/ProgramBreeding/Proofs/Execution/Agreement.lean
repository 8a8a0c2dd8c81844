import Mathlib.Data.List.Forall2
import Mathlib.Order.Defs.PartialOrder
import ProgramBreeding.Execution.Builtin

/-!
# Values that agree between two runs

Two programs that do the same may give their functions different labels, and may make their lists in
another order.  Values agree if they are equal up to the labels of functions and the references of lists,
and heaps agree if lists that stand for each other hold values that agree.

## Main definitions

* `Labelling` — which functions of two programs stand for each other.
* `Pairing` — which lists of two runs stand for each other.
* `Value.Agree`, `Heap.Agree` — values and heaps that agree.
* `equal_eq`, `order?_eq`, `plainText_eq`, `toDatum_eq` — what values that agree have in common.

## Design notes

A program sees of a label only whether two functions are the same, so a labelling is one-to-one.
A function that the other program does without has no partner.  References are paired in the same way, but
pairs are added while the runs make lists.  Of a list that only the first run has, a pairing may say what
it holds: as long as no value leads to it, nothing changes it.
-/

namespace ProgramBreeding

/-- Which functions of two programs stand for each other: a one-to-one relation of labels. -/
structure Labelling where
  rel : Label → Label → Prop
  unique : ∀ {l l' k k'}, rel l l' → rel k k' → (l = k ↔ l' = k')

/-- Which lists of two runs stand for each other: a one-to-one relation of references. -/
structure Pairing where
  rel : Ref → Ref → Prop
  unique : ∀ {r r' q q'}, rel r r' → rel q q' → (r = q ↔ r' = q')
  /-- What lists hold that only the first run has. -/
  kept : Ref → Option (Array Value)

namespace Pairing

/-- Pairs are added, and lists without partners go on holding what they hold. -/
instance : Preorder Pairing where
  le P Q := (∀ r r', P.rel r r' → Q.rel r r') ∧ ∀ r items, P.kept r = some items → Q.kept r = some items
  le_refl _ := ⟨fun _ _ => id, fun _ _ => id⟩
  le_trans _ _ _ h h' := ⟨fun r r' => h'.1 r r' ∘ h.1 r r', fun r items => h'.2 r items ∘ h.2 r items⟩

/-- No list has a partner. -/
def empty : Pairing where
  rel _ _ := False
  unique := False.elim
  kept _ := none

end Pairing

/-- Values that are equal up to the labels of functions and the references of lists. -/
inductive Value.Agree (L : Labelling) (P : Pairing) : Value → Value → Prop
  | none : Agree L P .none .none
  | bool (b : Bool) : Agree L P (.bool b) (.bool b)
  | int (i : Int64) : Agree L P (.int i) (.int i)
  | float (x : Double) : Agree L P (.float x) (.float x)
  | str (s : String) : Agree L P (.str s) (.str s)
  | list {r r' : Ref} (h : P.rel r r') : Agree L P (.list r) (.list r')
  | function {l l' : Label} (h : L.rel l l') : Agree L P (.function l) (.function l')
  | builtin (b : Builtin) : Agree L P (.builtin b) (.builtin b)

/-- Lists of values that agree one by one. -/
abbrev Values.Agree (L : Labelling) (P : Pairing) : List Value → List Value → Prop :=
  List.Forall₂ (Value.Agree L P)

/-- Heaps in which lists that stand for each other hold values that agree. -/
structure Heap.Agree (L : Labelling) (P : Pairing) (heap heap' : Heap) : Prop where
  lt : ∀ {r r'}, P.rel r r' → r < heap.size ∧ r' < heap'.size
  items : ∀ {r r'}, P.rel r r' → Values.Agree L P (heap.items r).toList (heap'.items r').toList
  kept : ∀ {r items}, P.kept r = some items → r < heap.size ∧ heap.items r = items ∧ ∀ r', ¬ P.rel r r'

section

variable {L : Labelling} {P Q : Pairing} {heap heap' : Heap} {v v' a a' b b' : Value} {vs vs' : List Value}

/-- Values that agree still do when more lists have partners. -/
theorem Value.Agree.grow (hrel : ∀ r r', P.rel r r' → Q.rel r r') (h : v.Agree L P v') : v.Agree L Q v' := by
  cases h with
  | list hr => exact .list (hrel _ _ hr)
  | function hl => exact .function hl
  | _ => constructor

theorem Values.Agree.grow (hrel : ∀ r r', P.rel r r' → Q.rel r r') (h : Values.Agree L P vs vs') :
    Values.Agree L Q vs vs' :=
  h.imp fun _ _ hv => hv.grow hrel

theorem Value.Agree.mono (hle : P ≤ Q) (h : v.Agree L P v') : v.Agree L Q v' := h.grow hle.1

theorem Values.Agree.mono (hle : P ≤ Q) (h : Values.Agree L P vs vs') : Values.Agree L Q vs vs' := h.grow hle.1

theorem Heap.Agree.size_eq (h : heap.Agree L P heap') {r r' : Ref} (hr : P.rel r r') :
    (heap.items r).size = (heap'.items r').size := by
  simpa using (h.items hr).length_eq

/-! ### Views of one value -/

theorem Value.Agree.kind_eq (h : v.Agree L P v') : v.kind = v'.kind := by cases h <;> rfl

theorem Value.Agree.number?_eq (h : v.Agree L P v') : v.number? = v'.number? := by cases h <;> rfl

theorem Value.Agree.int?_eq (h : v.Agree L P v') : v.int? = v'.int? := by cases h <;> rfl

theorem Value.Agree.leafText_eq (h : v.Agree L P v') : v.leafText = v'.leafText := by cases h <;> rfl

theorem Value.Agree.isTruthy_eq (h : v.Agree L P v') (hheap : heap.Agree L P heap') :
    v.isTruthy heap = v'.isTruthy heap' := by
  cases h with
  | @list r r' hr =>
    show (!(heap.items r).isEmpty) = !(heap'.items r').isEmpty
    rw [Array.isEmpty, Array.isEmpty, hheap.size_eq hr]
  | _ => rfl

theorem Value.agree_ofLiteral (literal : Literal) :
    (Value.ofLiteral literal).Agree L P (.ofLiteral literal) := by
  cases literal <;> constructor

/-! ### Lists of values -/

/-- What is the same for values that agree is the same for lists of them. -/
theorem Values.Agree.map_eq {β : Type} {f f' : Value → β}
    (hf : ∀ v v', v.Agree L P v' → f v = f' v') (h : Values.Agree L P vs vs') :
    vs.map f = vs'.map f' := by
  induction h with
  | nil => rfl
  | cons hv _ ih => rw [List.map_cons, List.map_cons, hf _ _ hv, ih]

theorem Values.Agree.any_eq {p p' : Value → Bool} (hp : ∀ v v', v.Agree L P v' → p v = p' v')
    (h : Values.Agree L P vs vs') : vs.any p = vs'.any p' := by
  induction h with
  | nil => rfl
  | cons hv _ ih => rw [List.any_cons, List.any_cons, hp _ _ hv, ih]

theorem Values.Agree.countP_eq {p p' : Value → Bool} (hp : ∀ v v', v.Agree L P v' → p v = p' v')
    (h : Values.Agree L P vs vs') : vs.countP p = vs'.countP p' := by
  induction h with
  | nil => rfl
  | cons hv _ ih => rw [List.countP_cons, List.countP_cons, hp _ _ hv, ih]

theorem Values.Agree.findIdx?_eq {p p' : Value → Bool} (hp : ∀ v v', v.Agree L P v' → p v = p' v')
    (h : Values.Agree L P vs vs') : vs.findIdx? p = vs'.findIdx? p' := by
  induction h with
  | nil => rfl
  | cons hv _ ih => rw [List.findIdx?_cons, List.findIdx?_cons, hp _ _ hv, ih]

theorem Values.Agree.append {ws ws' : List Value} (h : Values.Agree L P vs vs')
    (h' : Values.Agree L P ws ws') : Values.Agree L P (vs ++ ws) (vs' ++ ws') :=
  List.rel_append h h'

theorem Values.Agree.reverse (h : Values.Agree L P vs vs') : Values.Agree L P vs.reverse vs'.reverse :=
  List.rel_reverse h

theorem Values.Agree.headD (h : Values.Agree L P vs vs') : (vs.headD .none).Agree L P (vs'.headD .none) := by
  cases h with
  | nil => exact .none
  | cons hv _ => exact hv

theorem Values.Agree.getD (h : Values.Agree L P vs vs') (n : Nat) (hd : v.Agree L P v') :
    (vs.getD n v).Agree L P (vs'.getD n v') := by
  induction h generalizing n with
  | nil => exact hd
  | cons hv _ ih =>
    cases n with
    | zero => exact hv
    | succ n => exact ih n

/-! ### Equality -/

theorem Values.Agree.all_zip_eq (p p' : Value × Value → Bool)
    (hp : ∀ a a' b b', a.Agree L P a' → b.Agree L P b' → p (a, b) = p' (a', b')) {ws ws' : List Value}
    (h : Values.Agree L P vs vs') (h' : Values.Agree L P ws ws') :
    (vs.zip ws).all p = (vs'.zip ws').all p' := by
  induction h generalizing ws ws' with
  | nil => rfl
  | cons hv _ ih =>
    cases h' with
    | nil => rfl
    | cons hw hws => simp only [List.zip_cons_cons, List.all_cons, hp _ _ _ _ hv hw, ih hws]

theorem equalWithin_eq (hheap : heap.Agree L P heap') (n : Nat) :
    ∀ {a a' b b' : Value}, a.Agree L P a' → b.Agree L P b' →
      equalWithin heap n a b = equalWithin heap' n a' b' := by
  induction n with
  | zero => exact fun _ _ => rfl
  | succ n ih =>
    intro a a' b b' ha hb
    cases ha with
    | @list r r' hr =>
      cases hb with
      | @list q q' hq =>
        have hitems := Values.Agree.all_zip_eq (fun pair => equalWithin heap n pair.1 pair.2)
          (fun pair => equalWithin heap' n pair.1 pair.2) (fun _ _ _ _ h h' => ih h h')
          (hheap.items hr) (hheap.items hq)
        have hsame : (r == q) = (r' == q') := by
          rw [Bool.eq_iff_iff, beq_iff_eq, beq_iff_eq]
          exact P.unique hr hq
        simp only [equalWithin, hsame, hitems, hheap.size_eq hr, hheap.size_eq hq]
      | _ => rfl
    | function hl =>
      cases hb with
      | function hk =>
        simp only [equalWithin]
        rw [Bool.eq_iff_iff, beq_iff_eq, beq_iff_eq]
        exact L.unique hl hk
      | _ => rfl
    | _ => cases hb <;> rfl

/-- Values that agree are equal to the same values. -/
theorem equal_eq (hheap : heap.Agree L P heap') (ha : a.Agree L P a') (hb : b.Agree L P b') :
    equal heap a b = equal heap' a' b' :=
  equalWithin_eq hheap maxLevels ha hb

/-! ### Order -/

theorem Values.Agree.find?_zip (p p' : Value × Value → Bool)
    (hp : ∀ a a' b b', a.Agree L P a' → b.Agree L P b' → p (a, b) = p' (a', b')) {ws ws' : List Value}
    (h : Values.Agree L P vs vs') (h' : Values.Agree L P ws ws') :
    Option.Rel (fun x y => Value.Agree L P x.1 y.1 ∧ Value.Agree L P x.2 y.2) ((vs.zip ws).find? p)
      ((vs'.zip ws').find? p') := by
  induction h generalizing ws ws' with
  | nil => exact .none
  | cons hv _ ih =>
    cases h' with
    | nil => exact .none
    | cons hw hws =>
      rw [List.zip_cons_cons, List.zip_cons_cons, List.find?_cons, List.find?_cons,
        hp _ _ _ _ hv hw]
      split
      · exact .some ⟨hv, hw⟩
      · exact ih hws

theorem orderWithin_eq (hheap : heap.Agree L P heap') (n : Nat) :
    ∀ {a a' b b' : Value}, a.Agree L P a' → b.Agree L P b' →
      orderWithin heap n a b = orderWithin heap' n a' b' := by
  induction n with
  | zero => exact fun _ _ => rfl
  | succ n ih =>
    intro a a' b b' ha hb
    cases ha with
    | list hr =>
      cases hb with
      | list hq =>
        have hfound := Values.Agree.find?_zip (fun pair => !equalWithin heap n pair.1 pair.2)
          (fun pair => !equalWithin heap' n pair.1 pair.2)
          (fun _ _ _ _ h h' => congrArg (!·) (equalWithin_eq hheap n h h')) (hheap.items hr)
          (hheap.items hq)
        simp only [orderWithin, hheap.size_eq hr, hheap.size_eq hq]
        revert hfound
        generalize List.find? _ _ = found
        generalize List.find? _ _ = found'
        intro hfound
        cases hfound with
        | none => rfl
        | some h => exact ih h.1 h.2
      | _ => rfl
    | _ => cases hb <;> rfl

theorem order?_eq (hheap : heap.Agree L P heap') (ha : a.Agree L P a') (hb : b.Agree L P b') :
    order? heap a b = order? heap' a' b' :=
  orderWithin_eq hheap maxLevels ha hb

theorem orderFor_eq (op : CompareOp) (hheap : heap.Agree L P heap') (ha : a.Agree L P a')
    (hb : b.Agree L P b') : orderFor op heap a b = orderFor op heap' a' b' := by
  rw [orderFor, orderFor, order?_eq hheap ha hb, ha.kind_eq, hb.kind_eq]

theorem contains_eq (hheap : heap.Agree L P heap') (ha : a.Agree L P a') (hb : b.Agree L P b') :
    contains heap a b = contains heap' a' b' := by
  cases ha with
  | list hr =>
    have hany := (hheap.items hr).any_eq fun _ _ h => equal_eq hheap h hb
    simp only [contains, ← Array.any_toList, hany]
  | str s => cases hb <;> rfl
  | _ => rfl

theorem compareValues_eq (op : CompareOp) (hheap : heap.Agree L P heap') (ha : a.Agree L P a')
    (hb : b.Agree L P b') : compareValues heap op a b = compareValues heap' op a' b' := by
  cases op <;> simp only [compareValues, equal_eq hheap ha hb, orderFor_eq _ hheap ha hb,
    contains_eq hheap hb ha]

/-! ### Text -/

theorem textWithin_eq (hheap : heap.Agree L P heap') (n : Nat) :
    ∀ {v v' : Value}, v.Agree L P v' → v.textWithin heap n = v'.textWithin heap' n := by
  induction n with
  | zero => exact fun h => h.leafText_eq
  | succ n ih =>
    intro v v' h
    cases h with
    | list hr =>
      have htexts := (hheap.items hr).map_eq fun _ _ h => ih h
      simp only [Value.textWithin, htexts]
    | _ => rfl

theorem text_eq (hheap : heap.Agree L P heap') (h : v.Agree L P v') : v.text heap = v'.text heap' :=
  textWithin_eq hheap maxLevels h

/-- Values that agree are written the same. -/
theorem plainText_eq (hheap : heap.Agree L P heap') (h : v.Agree L P v') :
    v.plainText heap = v'.plainText heap' := by
  cases h with
  | list hr => exact text_eq hheap (.list hr)
  | _ => rfl

/-! ### Plain data -/

theorem Values.Agree.mapM_eq {β : Type} {f f' : Value → Except Fault β}
    (hf : ∀ v v', v.Agree L P v' → f v = f' v') (h : Values.Agree L P vs vs') :
    vs.mapM f = vs'.mapM f' := by
  induction h with
  | nil => rfl
  | cons hv _ ih => rw [List.mapM_cons, List.mapM_cons, hf _ _ hv, ih]

theorem toDatumWithin_eq (hheap : heap.Agree L P heap') (n : Nat) :
    ∀ {v v' : Value}, v.Agree L P v' → v.toDatumWithin heap n = v'.toDatumWithin heap' n := by
  induction n with
  | zero => exact fun _ => rfl
  | succ n ih =>
    intro v v' h
    cases h with
    | list hr =>
      have hdata := (hheap.items hr).mapM_eq fun _ _ h => ih h
      simp only [Value.toDatumWithin, hdata]
    | _ => rfl

/-- Values that agree leave a run as the same plain data. -/
theorem toDatum_eq (hheap : heap.Agree L P heap') (h : v.Agree L P v') :
    v.toDatum heap = v'.toDatum heap' :=
  toDatumWithin_eq hheap maxLevels h

/-! ### Sorting -/

/-- Results of rules about values: the same fault, or results that agree. -/
inductive Answers {β γ : Type} (A : β → γ → Prop) : Except Fault β → Except Fault γ → Prop
  | error (fault : Fault) : Answers A (.error fault) (.error fault)
  | ok {b : β} {c : γ} (h : A b c) : Answers A (.ok b) (.ok c)

theorem Answers.bind {β γ β' γ' : Type} {A : β → γ → Prop} {B : β' → γ' → Prop}
    {x : Except Fault β} {y : Except Fault γ} {f : β → Except Fault β'} {g : γ → Except Fault γ'}
    (h : Answers A x y) (hf : ∀ b c, A b c → Answers B (f b) (g c)) :
    Answers B (x >>= f) (y >>= g) := by
  cases h with
  | error fault => exact .error fault
  | ok h => exact hf _ _ h

theorem mergeValues_answers (hheap : heap.Agree L P heap') : ∀ (count : Nat)
    {merged merged' left left' right right' : List Value}, Values.Agree L P merged merged' →
      Values.Agree L P left left' → Values.Agree L P right right' →
        Answers (Values.Agree L P) (mergeValues heap count merged left right)
          (mergeValues heap' count merged' left' right')
  | 0, _, _, _, _, _, _, hmerged, hleft, hright =>
    .ok ((hmerged.reverse.append hleft).append hright)
  | count + 1, _, _, _, _, _, _, hmerged, .nil, hright => .ok (hmerged.reverse.append hright)
  | count + 1, _, _, _, _, _, _, hmerged, .cons hx hleft, .nil =>
    .ok (hmerged.reverse.append (.cons hx hleft))
  | count + 1, _, _, _, _, _, _, hmerged, .cons hx hleft, .cons hy hright => by
    simp only [mergeValues, orderFor_eq .lt hheap hy hx]
    split
    · exact .error _
    · exact mergeValues_answers hheap count (.cons hy hmerged) (.cons hx hleft) hright
    · exact mergeValues_answers hheap count (.cons hx hmerged) hleft (.cons hy hright)

theorem sortWithin_answers (hheap : heap.Agree L P heap') (depth : Nat) :
    ∀ {vs vs' : List Value}, Values.Agree L P vs vs' →
      Answers (Values.Agree L P) (sortWithin heap depth vs) (sortWithin heap' depth vs') := by
  induction depth with
  | zero => exact fun h => .ok h
  | succ depth ih =>
    intro vs vs' h
    unfold sortWithin
    rw [h.length_eq]
    split
    · exact .ok h
    · refine (ih (List.forall₂_take _ h)).bind fun left left' hleft => ?_
      refine (ih (List.forall₂_drop _ h)).bind fun right right' hright => ?_
      exact mergeValues_answers hheap _ .nil hleft hright

theorem sortValues_answers (hheap : heap.Agree L P heap') (h : Values.Agree L P vs vs') :
    Answers (Values.Agree L P) (sortValues heap vs) (sortValues heap' vs') := by
  rw [sortValues, sortValues, h.length_eq]
  exact sortWithin_answers hheap _ h

end

end ProgramBreeding

import ProgramBreeding.Execution.Session
import ProgramBreeding.Proofs.Execution.Simulation

/-!
# Operators and built-in functions in two runs

Operators, built-in functions and methods do the same in two runs whose operands agree.

## Main definitions

* `Sim.binaryOp`, `Sim.signOp`, `Sim.elementAt`, `Step.storeItem` — operators and elements.
* `Sim.callBuiltin`, `Sim.callMethod` — calls that do not run a function of the program.
* `Sim.ofData`, `Sim.toDatum` — plain data crossing the boundary of a run.
-/

namespace ProgramBreeding

variable {S : Setting} {V : View} {P : Pairing} {c : Nat} {a a' b b' : Value} {args args' : List Value}

/-! ### Arithmetic -/

theorem Num.agree_toValue (n : Num) : n.toValue.Agree S.labels P n.toValue := by
  cases n <;> constructor

protected theorem Sim.numberOp (op : BinaryOp) (ha : a.Agree S.labels P a') (hb : b.Agree S.labels P b') :
    Sim S V P c c (Value.Agree S.labels) (numberOp op a b) (numberOp op a' b') := by
  unfold numberOp
  rw [ha.number?_eq, hb.number?_eq, ha.kind_eq, hb.kind_eq]
  split
  · exact .ofExcept_bind _ fun n => .pure n.agree_toValue
  · exact .raise _

protected theorem Sim.repeatText (text : String) (count : Int64) :
    Sim S V P c c (Value.Agree S.labels) (repeatText text count) (repeatText text count) := by
  exact .ofExcept_bind _ fun n => .pure (.str _)

theorem values_agree_repeat {items items' : Array Value}
    (h : Values.Agree S.labels P items.toList items'.toList) (n : Nat) :
    ∀ {found found' : Array Value}, Values.Agree S.labels P found.toList found'.toList →
      Values.Agree S.labels P ((List.replicate n items).foldl (· ++ ·) found).toList
        ((List.replicate n items').foldl (· ++ ·) found').toList := by
  induction n with
  | zero => exact fun hfound => hfound
  | succ n ih =>
    intro found found' hfound
    refine ih ?_
    rw [Array.toList_append, Array.toList_append]
    exact hfound.append h

protected theorem Sim.repeatList {r r' : Ref} (hr : P.rel r r') (count : Int64) :
    Sim S V P c c (Value.Agree S.labels) (repeatList r count) (repeatList r' count) := by
  refine (Step.itemsOf hr).bind fun items items' hitems => ?_
  rw [hitems.size_eq]
  exact .ofExcept_bind _ fun n => .newList (values_agree_repeat hitems n .nil)

/-- Something repeated as often as a value says, if it is a whole number. -/
theorem Sim.repeated {f f' : Int64 → Exec Value} {m m' : Exec Value} (hb : b.Agree S.labels P b')
    (hf : ∀ count, Sim S V P c c (Value.Agree S.labels) (f count) (f' count))
    (hm : Sim S V P c c (Value.Agree S.labels) m m') :
    Sim S V P c c (Value.Agree S.labels) (match b.int? with | some count => f count | none => m)
      (match b'.int? with | some count => f' count | none => m') := by
  rw [hb.int?_eq]
  cases b'.int? with
  | none => exact hm
  | some count => exact hf count

protected theorem Sim.addition (ha : a.Agree S.labels P a') (hb : b.Agree S.labels P b') :
    Sim S V P c c (Value.Agree S.labels) (binaryOp .add a b) (binaryOp .add a' b') := by
  have hnumber : Sim S V P c c (Value.Agree S.labels) (numberOp .add a b) (numberOp .add a' b') :=
    .numberOp .add ha hb
  cases ha with
  | str x =>
    cases hb with
    | str y => exact .ite .rfl (fun _ => .raise _) fun _ => .pure (.str (x ++ y))
    | _ => exact hnumber
  | list hx =>
    cases hb with
    | list hy =>
      refine (Step.itemsOf hx).bind fun items items' hitems => ?_
      refine (Step.itemsOf hy).bind fun more more' hmore => ?_
      have hall : Values.Agree S.labels P (items ++ more).toList (items' ++ more').toList := by
        rw [Array.toList_append, Array.toList_append]
        exact hitems.append hmore
      exact .ite (by rw [hall.size_eq]) (fun _ => .raise_bind _ _ _) fun _ => .newList hall
    | _ => exact hnumber
  | _ => cases hb <;> exact hnumber

protected theorem Sim.multiplication (ha : a.Agree S.labels P a') (hb : b.Agree S.labels P b') :
    Sim S V P c c (Value.Agree S.labels) (binaryOp .mul a b) (binaryOp .mul a' b') := by
  have hnumber : Sim S V P c c (Value.Agree S.labels) (numberOp .mul a b) (numberOp .mul a' b') :=
    .numberOp .mul ha hb
  have hleft := ha
  have hright := hb
  cases ha with
  | str text => exact .repeated hb (fun count => .repeatText text count) hnumber
  | list hr =>
    cases hb with
    | str text => exact hnumber
    | _ => exact .repeated hright (fun count => .repeatList hr count) hnumber
  | _ =>
    cases hb with
    | str text => exact .repeated hleft (fun count => .repeatText text count) hnumber
    | list hr => exact .repeated hleft (fun count => .repeatList hr count) hnumber
    | _ => exact hnumber

protected theorem Sim.binaryOp (op : BinaryOp) (ha : a.Agree S.labels P a') (hb : b.Agree S.labels P b') :
    Sim S V P c c (Value.Agree S.labels) (binaryOp op a b) (binaryOp op a' b') := by
  cases op with
  | add => exact .addition ha hb
  | mul => exact .multiplication ha hb
  | _ => exact .numberOp _ ha hb

protected theorem Sim.signValue (op : UnaryOp) (ha : a.Agree S.labels P a') :
    Sim S V P c c (Value.Agree S.labels) (signValue op a) (signValue op a') := by
  unfold signValue
  rw [ha.number?_eq, ha.kind_eq]
  cases a'.number? with
  | none => exact .raise _
  | some n =>
    exact .ofExcept_bind _ fun n => .pure n.agree_toValue

protected theorem Sim.signOp (op : UnaryOp) (ha : a.Agree S.labels P a') :
    Sim S V P c c (Value.Agree S.labels) (signOp op a) (signOp op a') := by
  cases op with
  | not =>
    refine (Step.truth ha).bind fun b b' hb => ?_
    rw [← hb]
    exact .pure (.bool _)
  | neg => exact .signValue .neg ha
  | pos => exact .signValue .pos ha

/-! ### Elements -/

theorem indexWithin_eq (ha : a.Agree S.labels P a') (size : Nat) :
    indexWithin a size = indexWithin a' size := by
  rw [indexWithin, indexWithin, ha.int?_eq, ha.kind_eq]

theorem values_agree_getD {items items' : Array Value}
    (h : Values.Agree S.labels P items.toList items'.toList) (n : Nat) :
    (items.getD n .none).Agree S.labels P (items'.getD n .none) := by
  have hget := h.getD n Value.Agree.none
  rwa [List.getD_eq_getElem?_getD, List.getD_eq_getElem?_getD, Array.getElem?_toList,
    Array.getElem?_toList, ← Array.getD_eq_getD_getElem?, ← Array.getD_eq_getD_getElem?] at hget

protected theorem Sim.elementAt (ha : a.Agree S.labels P a') (hb : b.Agree S.labels P b') :
    Sim S V P c c (Value.Agree S.labels) (elementAt a b) (elementAt a' b') := by
  cases ha with
  | list hr =>
    refine (Step.itemsOf hr).bind fun items items' hitems => ?_
    rw [hitems.size_eq, indexWithin_eq hb]
    exact .ofExcept_bind _ fun n => .pure (values_agree_getD hitems n)
  | str text =>
    show Sim S V P c c _ (ofExcept (indexWithin b text.toList.length) >>= _)
      (ofExcept (indexWithin b' text.toList.length) >>= _)
    rw [indexWithin_eq hb]
    refine .ofExcept_bind _ fun n => ?_
    cases text.toList[n]? with
    | none => exact .pure .none
    | some c => exact .pure (.str _)
  | _ => exact .raise _

theorem values_agree_set {items items' : List Value} (h : Values.Agree S.labels P items items') (n : Nat)
    (ha : a.Agree S.labels P a') : Values.Agree S.labels P (items.set n a) (items'.set n a') := by
  induction h generalizing n with
  | nil => exact .nil
  | cons hv hrest ih =>
    cases n with
    | zero => exact .cons ha hrest
    | succ n => exact .cons hv (ih n)

protected theorem Step.storeItem {v v' : Value} (hv : v.Agree S.labels P v') (ha : a.Agree S.labels P a')
    (hb : b.Agree S.labels P b') :
    Step S V P c c (fun _ _ => True) (storeItem v a b) (storeItem v' a' b') := by
  cases hv with
  | list hr =>
    refine (Step.itemsOf hr).andThen fun items items' hitems => ?_
    rw [hitems.size_eq, indexWithin_eq ha]
    refine .ofExcept_bind _ fun n => ?_
    refine .updateList hr fun items items' hitems => ?_
    rw [Array.toList_setIfInBounds, Array.toList_setIfInBounds]
    exact values_agree_set hitems n hb
  | _ => exact .raise _

/-! ### Built-in functions -/

protected theorem Step.requireCount (name : String) (hargs : Values.Agree S.labels P args args')
    (least greatest : Nat) :
    Step S V P c c (fun _ _ => True) (requireCount name args least greatest)
      (requireCount name args' least greatest) := by
  unfold requireCount
  rw [hargs.length_eq]
  refine .ite .rfl (fun _ => .pure trivial) fun _ => ?_
  exact .ite .rfl (fun _ => .raise _) fun _ => .raise _

protected theorem Sim.countValue (n : Nat) :
    Sim S V P c c (Value.Agree S.labels) (countValue n) (countValue n) := by
  unfold countValue
  cases Checked.word? n with
  | none => exact .raise _
  | some i => exact .pure (.int i)

protected theorem Sim.lengthOf (ha : a.Agree S.labels P a') :
    Sim S V P c c (Value.Agree S.labels) (lengthOf a) (lengthOf a') := by
  cases ha with
  | list hr =>
    refine (Step.itemsOf hr).bind fun items items' hitems => ?_
    rw [hitems.size_eq]
    exact .countValue _
  | str s => exact .countValue _
  | _ => exact .raise _

protected theorem Sim.addAll {vs vs' : List Value} (ha : a.Agree S.labels P a')
    (hvs : Values.Agree S.labels P vs vs') : Sim S V P c c (Value.Agree S.labels) (addAll a vs) (addAll a' vs') := by
  induction vs generalizing P a a' vs' with
  | nil =>
    cases hvs
    exact .pure ha
  | cons v rest ih =>
    obtain ⟨v', rest', hv, hrest, rfl⟩ := List.forall₂_cons_left_iff.mp hvs
    exact (Sim.binaryOp .add ha hv).bind fun _ hle _ _ htotal => ih htotal (Values.Agree.mono hle hrest)

protected theorem Sim.bestOf (wanted : Ordering) {vs vs' : List Value} (ha : a.Agree S.labels P a')
    (hvs : Values.Agree S.labels P vs vs') :
    Sim S V P c c (Value.Agree S.labels) (bestOf wanted a vs) (bestOf wanted a' vs') := by
  induction hvs generalizing a a' with
  | nil => exact .pure ha
  | cons hv _ ih =>
    refine .get fun s s' hagree => ?_
    rw [orderFor_eq .lt hagree.heap hv ha]
    refine .ofExcept_bind _ fun order => ih ?_
    split
    · exact hv
    · exact ha

theorem rangeArguments_eq (hargs : Values.Agree S.labels P args args') :
    rangeArguments args = rangeArguments args' := by
  induction hargs with
  | nil => rfl
  | cons hv _ ih => rw [rangeArguments, rangeArguments, hv.int?_eq, hv.kind_eq, ih]

theorem values_agree_range (start step : Int) (length : Nat) :
    Values.Agree S.labels P (arithmeticRange start step length).toList
      (arithmeticRange start step length).toList := by
  unfold arithmeticRange
  rw [List.toList_toArray]
  induction List.range length with
  | nil => exact .nil
  | cons k _ ih => exact .cons (.int _) ih

protected theorem Sim.callRange (hargs : Values.Agree S.labels P args args') :
    Sim S V P c c (Value.Agree S.labels) (callRange S.budget args) (callRange S.budget' args') := by
  refine (Step.requireCount "range" hargs 1 3).bind fun _ _ _ => ?_
  rw [rangeArguments_eq hargs]
  refine .ofExcept_bind _ fun bounds => ?_
  refine .ite .rfl (fun _ => .raise_bind _ _ _) fun _ => ?_
  refine (Step.charge _).bind fun _ _ _ => ?_
  exact .ite .rfl (fun _ => .raise_bind _ _ _) fun _ => .newList (values_agree_range _ _ _)

protected theorem Sim.bestOfAll (name : String) (wanted : Ordering) {items items' : List Value}
    (hitems : Values.Agree S.labels P items items') :
    Sim S V P c c (Value.Agree S.labels) (bestOfAll S.budget name wanted items)
      (bestOfAll S.budget' name wanted items') := by
  unfold bestOfAll
  rw [hitems.length_eq]
  refine (Step.charge _).bind fun _ _ _ => ?_
  cases hitems with
  | nil => exact .raise _
  | cons hfirst hrest => exact .bestOf wanted hfirst hrest

protected theorem Sim.callExtremum (name : String) (wanted : Ordering)
    (hargs : Values.Agree S.labels P args args') :
    Sim S V P c c (Value.Agree S.labels) (callExtremum S.budget name wanted args)
      (callExtremum S.budget' name wanted args') := by
  cases hargs with
  | nil => exact .raise _
  | cons ha hrest =>
    cases hrest with
    | nil =>
      refine (Step.iterate ha).bind fun items items' hitems => ?_
      exact .bestOfAll name wanted hitems
    | cons hb hrest => exact .bestOfAll name wanted (.cons ha (.cons hb hrest))

protected theorem Sim.toInteger (ha : a.Agree S.labels P a') :
    Sim S V P c c (Value.Agree S.labels) (toInteger a) (toInteger a') := by
  cases ha with
  | float x =>
    unfold toInteger
    dsimp only
    split
    · exact .pure (.int _)
    · exact .raise _
  | str s =>
    unfold toInteger
    dsimp only
    split
    · exact .pure (.int _)
    · exact .raise _
  | bool b => exact .pure (.int _)
  | int i => exact .pure (.int i)
  | _ => exact .raise _

protected theorem Sim.toDouble (ha : a.Agree S.labels P a') :
    Sim S V P c c (Value.Agree S.labels) (toDouble a) (toDouble a') := by
  cases ha with
  | float x => exact .pure (.float x)
  | str s =>
    unfold toDouble
    dsimp only
    split
    · exact .pure (.float _)
    · exact .raise _
  | bool b => exact .pure (.float _)
  | int i => exact .pure (.float _)
  | _ => exact .raise _

protected theorem Sim.absolute (ha : a.Agree S.labels P a') :
    Sim S V P c c (Value.Agree S.labels) (absolute a) (absolute a') := by
  have hword : ∀ i : Int64, Sim S V P c c (Value.Agree S.labels)
      (match Checked.abs i with
        | some result => pure (.int result)
        | none => raise .integerOverflow)
      (match Checked.abs i with
        | some result => pure (.int result)
        | none => raise .integerOverflow) := by
    intro i
    cases Checked.abs i with
    | none => exact .raise _
    | some result => exact .pure (.int result)
  cases ha with
  | float x => exact .pure (.float _)
  | bool b => exact hword _
  | int i => exact hword i
  | _ => exact .raise _

protected theorem Step.soleItems (name : String) (hargs : Values.Agree S.labels P args args') :
    Step S V P c c (fun items items' => Values.Agree S.labels P items.toList items'.toList)
      (soleItems S.budget name args) (soleItems S.budget' name args') := by
  refine (Step.requireCount name hargs 1 1).andThen fun _ _ _ => ?_
  refine (Step.iterate hargs.headD).andThen fun items items' hitems => ?_
  rw [hitems.size_eq]
  exact (Step.charge _).andThen fun _ _ _ => .pure hitems

protected theorem Sim.print (hargs : Values.Agree S.labels P args args') :
    Sim S V P c c (Value.Agree S.labels) (callBuiltin S.budget .print args)
      (callBuiltin S.budget' .print args') := by
  refine .get fun s s' hagree => ?_
  have hline : " ".intercalate (args'.map fun v => v.plainText s'.heap) =
      " ".intercalate (args.map fun v => v.plainText s.heap) :=
    congrArg _ (hargs.map_eq fun v v' hv => plainText_eq hagree.heap hv).symm
  dsimp only
  rw [hline]
  refine (Step.charge _).bind fun _ _ _ => ?_
  exact (Step.writeLine _).bind fun _ _ _ => .pure .none

/-- Built-in functions do the same with values that agree. -/
protected theorem Sim.callBuiltin (builtin : Builtin) (hargs : Values.Agree S.labels P args args') :
    Sim S V P c c (Value.Agree S.labels) (callBuiltin S.budget builtin args)
      (callBuiltin S.budget' builtin args') := by
  cases builtin with
  | len =>
    refine (Step.requireCount "len" hargs 1 1).bind fun _ _ _ => ?_
    refine (Step.charge 1).bind fun _ _ _ => ?_
    exact .lengthOf hargs.headD
  | sum =>
    refine (Step.requireCount "sum" hargs 1 2).bind fun _ _ _ => ?_
    refine (Step.iterate hargs.headD).bind fun items items' hitems => ?_
    rw [hitems.size_eq]
    refine (Step.charge _).bind fun _ _ _ => ?_
    exact .addAll (hargs.getD 1 (.int 0)) hitems
  | range => exact .callRange hargs
  | min => exact .callExtremum "min" .lt hargs
  | max => exact .callExtremum "max" .gt hargs
  | abs =>
    refine (Step.requireCount "abs" hargs 1 1).bind fun _ _ _ => ?_
    refine (Step.charge 1).bind fun _ _ _ => ?_
    exact .absolute hargs.headD
  | list =>
    refine (Step.requireCount "list" hargs 0 1).bind fun _ _ _ => ?_
    cases hargs with
    | nil => exact (Step.charge _).bind fun _ _ _ => .newList .nil
    | cons ha _ =>
      refine (Step.iterate ha).bind fun items items' hitems => ?_
      dsimp only
      rw [hitems.size_eq]
      exact (Step.charge _).bind fun _ _ _ => .newList hitems
  | sorted =>
    refine (Step.soleItems "sorted" hargs).bind fun items items' hitems => ?_
    refine .get fun s s' hagree => ?_
    refine (Step.ofExcept (sortValues_answers hagree.heap hitems)).bind fun _ _ hsorted => ?_
    exact .newList hsorted
  | any =>
    refine (Step.soleItems "any" hargs).bind fun items items' hitems => ?_
    refine .get fun s s' hagree => ?_
    have hany := hitems.any_eq fun v v' hv => hv.isTruthy_eq hagree.heap
    dsimp only
    rw [← Array.any_toList, ← Array.any_toList, hany]
    exact .pure (.bool _)
  | all =>
    refine (Step.soleItems "all" hargs).bind fun items items' hitems => ?_
    refine .get fun s s' hagree => ?_
    have hany := hitems.any_eq fun v v' hv => congrArg (!·) (hv.isTruthy_eq hagree.heap)
    dsimp only
    rw [← Array.all_toList, ← Array.all_toList, List.all_eq_not_any_not, List.all_eq_not_any_not,
      hany]
    exact .pure (.bool _)
  | print => exact .print hargs
  | int =>
    refine (Step.requireCount "int" hargs 0 1).bind fun _ _ _ => ?_
    refine (Step.charge 1).bind fun _ _ _ => ?_
    cases hargs with
    | nil => exact .pure (.int 0)
    | cons ha _ => exact .toInteger ha
  | float =>
    refine (Step.requireCount "float" hargs 0 1).bind fun _ _ _ => ?_
    refine (Step.charge 1).bind fun _ _ _ => ?_
    cases hargs with
    | nil => exact .pure (.float _)
    | cons ha _ => exact .toDouble ha
  | str =>
    refine (Step.requireCount "str" hargs 0 1).bind fun _ _ _ => ?_
    refine .get fun s s' hagree => ?_
    cases hargs with
    | nil => exact (Step.charge _).bind fun _ _ _ => .pure (.str _)
    | cons ha _ =>
      dsimp only
      rw [plainText_eq hagree.heap ha]
      exact (Step.charge _).bind fun _ _ _ => .pure (.str _)
  | bool =>
    refine (Step.requireCount "bool" hargs 0 1).bind fun _ _ _ => ?_
    refine (Step.charge 1).bind fun _ _ _ => ?_
    cases hargs with
    | nil => exact .pure (.bool false)
    | cons ha _ =>
      refine (Step.truth ha).bind fun b b' hb => ?_
      rw [← hb]
      exact .pure (.bool b)

/-! ### Methods -/

protected theorem Step.soleArgument (method : String) (hargs : Values.Agree S.labels P args args') :
    Step S V P c c (Value.Agree S.labels P) (soleArgument method args) (soleArgument method args') :=
  (Step.requireCount method hargs 1 1).andThen fun _ _ _ => .pure hargs.headD

theorem textArgument_eq (method : String) (ha : a.Agree S.labels P a') :
    textArgument method a = textArgument method a' := by
  cases ha <;> rfl

theorem textArguments_eq (method : String) (hargs : Values.Agree S.labels P args args') :
    textArguments method args = textArguments method args' := by
  induction hargs with
  | nil => rfl
  | cons hv _ ih => rw [textArguments, textArguments, textArgument_eq method hv, ih]

protected theorem Sim.newTexts (texts : List String) :
    Sim S V P c c (Value.Agree S.labels) (newTexts texts) (newTexts texts) :=
  .newList (by simpa using values_agree_str texts)

protected theorem Sim.boundedText (text : String) :
    Sim S V P c c (Value.Agree S.labels) (boundedText text) (boundedText text) :=
  .ite .rfl (fun _ => .raise _) fun _ => .pure (.str text)

theorem values_agree_insertAt {items items' : Array Value}
    (h : Values.Agree S.labels P items.toList items'.toList) (n : Nat) (ha : a.Agree S.labels P a') :
    Values.Agree S.labels P (insertAt items n a).toList (insertAt items' n a').toList := by
  have hall := (Values.Agree.append (List.forall₂_take n h) (.cons ha .nil)).append
    (List.forall₂_drop n h)
  have hdrop : ∀ xs : Array Value, (xs.drop n).toList = xs.toList.drop n := fun xs => by
    rw [Array.drop_eq_extract, Array.toList_extract, List.extract_eq_take_drop,
      List.take_of_length_le (by simp)]
  simpa only [insertAt, Array.toList_append, Array.toList_push, hdrop, Array.take_eq_extract,
    Array.toList_extract, List.extract_eq_take_drop, List.drop_zero, Nat.sub_zero] using hall

theorem values_agree_eraseIdx {vs vs' : List Value} (h : Values.Agree S.labels P vs vs') (n : Nat) :
    Values.Agree S.labels P (vs.eraseIdx n) (vs'.eraseIdx n) := by
  induction h generalizing n with
  | nil => exact .nil
  | cons hv hrest ih =>
    cases n with
    | zero => exact hrest
    | succ n => exact .cons hv (ih n)

protected theorem Sim.callListMethod {r r' : Ref} (hr : P.rel r r') (method : String)
    (hargs : Values.Agree S.labels P args args') :
    Sim S V P c c (Value.Agree S.labels) (callListMethod S.budget r method args)
      (callListMethod S.budget' r' method args') := by
  refine (Step.itemsOf hr).bind fun items items' hitems => ?_
  dsimp only
  rw [hitems.size_eq]
  -- The methods come in the order of the definition, and last what is no method.
  split
  · refine (Step.soleArgument _ hargs).bind fun v v' hv => ?_
    refine (Step.charge 1).bind fun _ _ _ => ?_
    refine .ite .rfl (fun _ => .raise_bind _ _ _) fun _ => ?_
    refine (Step.updateList hr fun items items' hitems => ?_).bind fun _ _ _ => .pure .none
    rw [Array.toList_push, Array.toList_push]
    exact hitems.append (.cons hv .nil)
  · refine (Step.soleArgument _ hargs).bind fun v v' hv => ?_
    refine (Step.iterate hv).bind fun extra extra' hextra => ?_
    rw [hextra.size_eq]
    refine (Step.charge _).bind fun _ _ _ => ?_
    refine .ite .rfl (fun _ => .raise_bind _ _ _) fun _ => ?_
    refine (Step.updateList hr fun items items' hitems => ?_).bind fun _ _ _ => .pure .none
    rw [Array.toList_append, Array.toList_append]
    exact hitems.append hextra
  · refine (Step.requireCount _ hargs 0 1).bind fun _ _ _ => ?_
    refine (Step.charge _).bind fun _ _ _ => ?_
    refine .ite .rfl (fun _ => .raise_bind _ _ _) fun _ => ?_
    have hpop (n : Nat) : Sim S V P c c (Value.Agree S.labels)
        (do
          let v := (← itemsOf r).getD n .none
          updateList r fun items => items.eraseIdxIfInBounds n
          return v)
        (do
          let v := (← itemsOf r').getD n .none
          updateList r' fun items => items.eraseIdxIfInBounds n
          return v) := by
      refine (Step.itemsOf hr).bind fun _ _ hall => ?_
      refine (Step.updateList hr fun items items' hitems => ?_).bind fun _ _ _ => .pure (values_agree_getD hall n)
      rw [Array.toList_eraseIdxIfInBounds, Array.toList_eraseIdxIfInBounds]
      exact values_agree_eraseIdx hitems n
    cases hargs with
    | nil => exact hpop _
    | cons ha _ =>
      dsimp only
      rw [indexWithin_eq ha]
      exact .ofExcept_bind _ fun n => hpop n
  · refine (Step.requireCount _ hargs 2 2).bind fun _ _ _ => ?_
    refine (Step.charge _).bind fun _ _ _ => ?_
    rw [hargs.headD.int?_eq, hargs.headD.kind_eq]
    split
    · exact .raise _
    · refine (Step.updateList hr fun items items' hitems => ?_).bind fun _ _ _ => .pure .none
      exact values_agree_insertAt hitems _ (hargs.getD 1 .none)
  · refine (Step.soleArgument _ hargs).bind fun v v' hv => ?_
    refine (Step.charge _).bind fun _ _ _ => ?_
    refine .get fun s s' hagree => ?_
    have hfound := (hagree.heap.items hr).findIdx?_eq
      fun _ _ h => equal_eq hagree.heap h hv
    rw [← List.findIdx?_toArray, ← List.findIdx?_toArray, Array.toArray_toList,
      Array.toArray_toList] at hfound
    rw [hfound, text_eq hagree.heap hv]
    split
    · exact .countValue _
    · exact .raise _
  · refine (Step.soleArgument _ hargs).bind fun v v' hv => ?_
    refine (Step.charge _).bind fun _ _ _ => ?_
    refine .get fun s s' hagree => ?_
    have hfound := (hagree.heap.items hr).countP_eq
      fun _ _ h => equal_eq hagree.heap h hv
    rw [← Array.countP_toList, ← Array.countP_toList, hfound]
    exact .countValue _
  · refine (Step.requireCount _ hargs 0 0).bind fun _ _ _ => ?_
    refine (Step.charge _).bind fun _ _ _ => ?_
    refine (Step.updateList hr fun items items' hitems => ?_).bind fun _ _ _ => .pure .none
    rw [Array.toList_reverse, Array.toList_reverse]
    exact hitems.reverse
  · refine (Step.requireCount _ hargs 0 0).bind fun _ _ _ => ?_
    refine (Step.charge _).bind fun _ _ _ => ?_
    refine .get fun s s' hagree => ?_
    refine (Step.ofExcept (sortValues_answers hagree.heap (hagree.heap.items hr))).bind fun _ _ hsorted => ?_
    exact (Step.updateList hr fun _ _ _ => hsorted).bind fun _ _ _ => .pure .none
  · refine (Step.requireCount _ hargs 0 0).bind fun _ _ _ => ?_
    refine (Step.charge _).bind fun _ _ _ => ?_
    exact (Step.itemsOf hr).bind fun _ _ hitems => .newList hitems
  · exact .raise _

protected theorem Sim.callTextMethod (text method : String) (hargs : Values.Agree S.labels P args args') :
    Sim S V P c c (Value.Agree S.labels) (callTextMethod S.budget text method args)
      (callTextMethod S.budget' text method args') := by
  refine (Step.charge _).bind fun _ _ _ => ?_
  split
  · exact (Step.requireCount _ hargs 0 0).bind fun _ _ _ => .pure (.str _)
  · exact (Step.requireCount _ hargs 0 0).bind fun _ _ _ => .pure (.str _)
  · exact (Step.requireCount _ hargs 0 0).bind fun _ _ _ => .pure (.str _)
  · refine (Step.requireCount _ hargs 0 1).bind fun _ _ _ => ?_
    cases hargs with
    | nil => exact .newTexts _
    | cons ha _ =>
      dsimp only
      rw [textArgument_eq _ ha]
      exact .ofExcept_bind _ fun s => .ite .rfl (fun _ => .raise_bind _ _ _) fun _ => .newTexts _
  · refine (Step.soleArgument _ hargs).bind fun v v' hv => ?_
    refine (Step.iterate hv).bind fun items items' hitems => ?_
    rw [hitems.size_eq, textArguments_eq _ hitems]
    refine (Step.charge _).bind fun _ _ _ => ?_
    exact .ofExcept_bind _ fun s => .boundedText _
  · refine (Step.soleArgument _ hargs).bind fun v v' hv => ?_
    rw [textArgument_eq _ hv]
    exact .ofExcept_bind _ fun s => .pure (.bool _)
  · refine (Step.soleArgument _ hargs).bind fun v v' hv => ?_
    rw [textArgument_eq _ hv]
    exact .ofExcept_bind _ fun s => .pure (.bool _)
  · refine (Step.requireCount _ hargs 2 2).bind fun _ _ _ => ?_
    rw [textArgument_eq _ hargs.headD, textArgument_eq _ (hargs.getD 1 .none)]
    refine .ofExcept_bind _ fun s => ?_
    exact .ofExcept_bind _ fun t => .ite .rfl (fun _ => .raise_bind _ _ _) fun _ => .boundedText _
  · exact .raise _

/-- Methods do the same with values that agree. -/
protected theorem Sim.callMethod (method : String) (ha : a.Agree S.labels P a')
    (hargs : Values.Agree S.labels P args args') :
    Sim S V P c c (Value.Agree S.labels) (callMethod S.budget a method args)
      (callMethod S.budget' a' method args') := by
  cases ha with
  | list hr => exact .callListMethod hr method hargs
  | str text => exact .callTextMethod text method hargs
  | _ => exact .raise _

/-! ### Plain data -/

mutual

protected theorem Sim.ofDatum : ∀ (P : Pairing) (d : Datum),
    Sim S V P c c (Value.Agree S.labels) (Value.ofDatum d) (Value.ofDatum d)
  | _, .none => .pure .none
  | _, .bool b => .pure (.bool b)
  | _, .int i => .pure (.int i)
  | _, .float x => .pure (.float x)
  | _, .str s => .pure (.str s)
  | P, .list items => (Sim.ofData P items).bind fun _ _ _ _ hitems => .newList hitems

protected theorem Sim.ofData : ∀ (P : Pairing) (ds : List Datum),
    Sim S V P c c (Values.Agree S.labels) (Value.ofData ds) (Value.ofData ds)
  | _, [] => .pure .nil
  | P, d :: rest =>
    (Sim.ofDatum P d).bind fun Q _ _ _ hv => (Sim.ofData Q rest).bind fun _ hle _ _ hvs =>
      .pure (.cons (hv.mono hle) hvs)

end

/-- The result of a call as plain data. -/
protected theorem Step.toDatum (ha : a.Agree S.labels P a') :
    Step S V P c c Eq (do ofExcept (a.toDatum (← get).heap))
      (do ofExcept (a'.toDatum (← get).heap)) := by
  refine .get fun s s' hagree => ?_
  rw [toDatum_eq hagree.heap ha]
  exact .ofExcept_same _

end ProgramBreeding

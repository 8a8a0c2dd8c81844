import ProgramBreeding.Execution.Compare
import ProgramBreeding.Proofs.Number.Order
import Mathlib.Data.List.Zip

/-!
# Comparison is lawful

Whatever values are compared, the other way round they compare the other way, and values in order are equal if
neither comes first.  Values without doubles and functions that are not nested too deeply are equal if and only
if they hold the same, and what they hold is ordered by first differences.

## Main definitions

* `order?_swap` — the order of values, the other way round.
* `eq_iff_equal_of_order?` — the order of values and their equality fit.
* `Holding`, `Value.holding` — what a value holds, and `Holding.order?`, its order.
* `Value.isDiscrete` — values without doubles and functions whose lists are nested so many levels deep at most.
* `equalWithin_iff_holding`, `orderWithin_eq_holding` — comparing values is comparing what they hold.
* `LawfulOn`, `compareValues_lawful` — the laws of the comparison operators.

## Design notes

Two values may hold the same in different lists, or in one list under two references, and a truth value holds
the same as a number.  All this is gone from a `Holding`, so equality of holdings is equality, and the laws of
the order are one induction each.  A list is its first item and the rest of it, which makes comparing a list
with another one a recursion on holdings.
-/

namespace ProgramBreeding

variable {heap : Heap}

/-! ### The other way round -/

theorem Double.equals_comm (a b : Double) : a.equals b = b.equals a := by
  unfold equals
  rw [Bool.and_comm (!a.isNaN), BEq.comm]

theorem Double.equals_eq_false_of_lt {a b : Double} (h : a < b) : a.equals b = false := by
  obtain ⟨-, -, hlt⟩ := lt_iff.mp h
  have hne : a.position ≠ b.position := fun heq => Nat.lt_irrefl _ (heq ▸ hlt)
  rw [equals, beq_false_of_ne hne, Bool.and_false]

theorem Double.not_lt_of_lt {a b : Double} (h : a < b) : ¬ b < a := by
  obtain ⟨-, -, hlt⟩ := lt_iff.mp h
  intro hgt
  obtain ⟨-, -, hgt⟩ := lt_iff.mp hgt
  exact Nat.lt_asymm hlt hgt

theorem compareDoubles_swap (a b : Double) : compareDoubles a b = (compareDoubles b a).map Ordering.swap := by
  unfold compareDoubles
  rw [Double.equals_comm b a]
  by_cases hlt : a < b
  · simp [hlt, Double.not_lt_of_lt hlt, Double.equals_eq_false_of_lt hlt]
  · by_cases hgt : b < a
    · simp [hlt, hgt, Double.equals_comm a b, Double.equals_eq_false_of_lt hgt]
    · cases hequals : a.equals b <;> simp [hlt, hgt]

theorem Num.equal_comm (a b : Num) : a.equal b = b.equal a := by
  cases a <;> cases b
  · exact BEq.comm
  all_goals exact Double.equals_comm _ _

theorem Num.order?_swap (a b : Num) : a.order? b = (b.order? a).map Ordering.swap := by
  cases a <;> cases b
  · exact congrArg some Std.OrientedOrd.eq_swap
  all_goals exact compareDoubles_swap _ _

theorem equalWithin_of_numbers {levels : Nat} {a b : Value} {m n : Num} (ha : a.number? = some m)
    (hb : b.number? = some n) : equalWithin heap (levels + 1) a b = m.equal n := by
  cases a <;> cases ha <;> cases b <;> cases hb <;> rfl

theorem orderWithin_of_numbers {levels : Nat} {a b : Value} {m n : Num} (ha : a.number? = some m)
    (hb : b.number? = some n) : orderWithin heap (levels + 1) a b = m.order? n := by
  cases a <;> cases ha <;> cases b <;> cases hb <;> rfl

theorem equalWithin_comm (heap : Heap) : ∀ (levels : Nat) (a b : Value),
    equalWithin heap levels a b = equalWithin heap levels b a
  | 0, _, _ => rfl
  | levels + 1, a, b => by
    cases a with
    | list r =>
      cases b with
      | list q =>
        simp only [equalWithin, ← List.zip_swap (heap.items r).toList, List.all_map, Function.comp_def,
          Prod.fst_swap, Prod.snd_swap, equalWithin_comm heap levels]
        rw [BEq.comm, BEq.comm (a := (heap.items r).size)]
      | _ => rfl
    | str s =>
      cases b with
      | str t => exact BEq.comm
      | _ => rfl
    | function l =>
      cases b with
      | function k => exact BEq.comm
      | _ => rfl
    | builtin f =>
      cases b with
      | builtin g => exact BEq.comm
      | _ => rfl
    | none => cases b <;> rfl
    | bool | int | float =>
      cases b with
      | bool | int | float =>
        rw [equalWithin_of_numbers rfl rfl, equalWithin_of_numbers rfl rfl]
        exact Num.equal_comm _ _
      | _ => rfl

theorem find?_zip_swap {p q : Value × Value → Bool} (h : ∀ pair, p pair.swap = q pair) (xs ys : List Value) :
    (ys.zip xs).find? p = ((xs.zip ys).find? q).map Prod.swap := by
  rw [← List.zip_swap, List.find?_map]
  congr 2
  funext pair
  exact h pair

/-- Compared the other way round, values compare the other way. -/
theorem orderWithin_swap (heap : Heap) : ∀ (levels : Nat) (a b : Value),
    orderWithin heap levels a b = (orderWithin heap levels b a).map Ordering.swap
  | 0, _, _ => rfl
  | levels + 1, a, b => by
    cases a with
    | list r =>
      cases b with
      | list q =>
        have hfound := find?_zip_swap (p := fun pair => !equalWithin heap levels pair.1 pair.2)
          (q := fun pair => !equalWithin heap levels pair.1 pair.2)
          (fun pair => congrArg (!·) (equalWithin_comm heap levels pair.2 pair.1))
          (heap.items r).toList (heap.items q).toList
        simp only [orderWithin]
        rw [hfound]
        cases ((heap.items r).toList.zip (heap.items q).toList).find? fun pair =>
            !equalWithin heap levels pair.1 pair.2 with
        | none => exact congrArg some Std.OrientedOrd.eq_swap
        | some pair => exact orderWithin_swap heap levels pair.1 pair.2
      | _ => rfl
    | str s =>
      cases b with
      | str t => exact congrArg some Std.OrientedOrd.eq_swap
      | _ => rfl
    | none | function | builtin => cases b <;> rfl
    | bool | int | float =>
      cases b with
      | bool | int | float =>
        rw [orderWithin_of_numbers rfl rfl, orderWithin_of_numbers rfl rfl]
        exact Num.order?_swap _ _
      | _ => rfl

/-- No value comes before itself. -/
theorem eq_of_orderWithin_self {levels : Nat} {a : Value} {o : Ordering}
    (h : orderWithin heap levels a a = some o) : o = .eq := by
  have hswap := orderWithin_swap heap levels a a
  rw [h] at hswap
  cases o with
  | eq => rfl
  | lt | gt => cases hswap

theorem order?_swap (heap : Heap) (a b : Value) : order? heap a b = (order? heap b a).map Ordering.swap :=
  orderWithin_swap heap maxLevels a b

/-! ### Order and equality -/

theorem equalWithin_list {levels : Nat} {r q : Ref} :
    equalWithin heap (levels + 1) (.list r) (.list q) = true ↔
      r = q ∨ (heap.items r).toList.length = (heap.items q).toList.length ∧
        ((heap.items r).toList.zip (heap.items q).toList).all
          (fun pair => equalWithin heap levels pair.1 pair.2) = true := by
  simp only [equalWithin, Bool.or_eq_true, Bool.and_eq_true, beq_iff_eq, Array.length_toList]

theorem orderWithin_list {levels : Nat} {r q : Ref} :
    orderWithin heap (levels + 1) (.list r) (.list q) =
      (((heap.items r).toList.zip (heap.items q).toList).find?
        fun pair => !equalWithin heap levels pair.1 pair.2).elim
          (some (compare (heap.items r).toList.length (heap.items q).toList.length))
          fun pair => orderWithin heap levels pair.1 pair.2 := by
  rw [orderWithin]
  cases List.find? _ _ <;> rfl

theorem compareDoubles_eq_iff {a b : Double} {o : Ordering} (h : compareDoubles a b = some o) :
    o = .eq ↔ a.equals b = true := by
  unfold compareDoubles at h
  split at h
  · rename_i hlt
    cases h
    simp [Double.equals_eq_false_of_lt hlt]
  · split at h
    · rename_i hequals
      cases h
      simp [hequals]
    · rename_i hne
      split at h
      · cases h
        simp [hne]
      · cases h

theorem Num.eq_iff_of_order? {a b : Num} {o : Ordering} (h : a.order? b = some o) : o = .eq ↔ a.equal b = true := by
  cases a <;> cases b
  · cases h
    rw [Std.LawfulEqOrd.compare_eq_iff_eq, Int64.toInt_inj]
    exact beq_iff_eq.symm
  all_goals exact compareDoubles_eq_iff h

/-- Values in order are equal if and only if neither comes before the other one. -/
theorem eq_iff_of_orderWithin (heap : Heap) : ∀ (levels : Nat) {a b : Value} {o : Ordering},
    orderWithin heap levels a b = some o → (o = .eq ↔ equalWithin heap levels a b = true)
  | 0, _, _, _, h => by cases h
  | levels + 1, a, b, o, h => by
    cases a with
    | list r =>
      cases b with
      | list q =>
        rw [orderWithin_list] at h
        rw [equalWithin_list]
        cases hfound : ((heap.items r).toList.zip (heap.items q).toList).find?
            fun pair => !equalWithin heap levels pair.1 pair.2 with
        | none =>
          rw [hfound] at h
          cases h
          have hall : ((heap.items r).toList.zip (heap.items q).toList).all
              (fun pair => equalWithin heap levels pair.1 pair.2) = true := by
            simpa using hfound
          rw [Std.LawfulEqOrd.compare_eq_iff_eq]
          constructor
          · exact fun hlength => .inr ⟨hlength, hall⟩
          · rintro (rfl | ⟨hlength, _⟩)
            · rfl
            · exact hlength
        | some pair =>
          rw [hfound] at h
          have hmem := List.mem_of_find?_eq_some hfound
          have hdiffers := List.find?_some hfound
          have hne := eq_iff_of_orderWithin heap levels h
          rw [Bool.not_eq_true'] at hdiffers
          rw [hdiffers] at hne
          refine iff_of_false (fun ho => by cases hne.mp ho) ?_
          rintro (rfl | ⟨_, hall⟩)
          · -- The lists are one, and a value that is not equal to itself is not in order with itself either.
            obtain ⟨i, _, rfl⟩ := List.getElem_of_mem hmem
            rw [List.getElem_zip] at h
            cases hne.mp (eq_of_orderWithin_self h)
          · have hequal := List.all_eq_true.mp hall pair hmem
            rw [hdiffers] at hequal
            cases hequal
      | _ => cases h
    | str s =>
      cases b with
      | str t =>
        cases h
        rw [Std.LawfulEqOrd.compare_eq_iff_eq]
        exact beq_iff_eq.symm
      | _ => cases h
    | bool | int | float =>
      cases b with
      | bool | int | float =>
        rw [orderWithin_of_numbers rfl rfl] at h
        rw [equalWithin_of_numbers rfl rfl]
        exact Num.eq_iff_of_order? h
      | _ => cases h
    | none | function | builtin => cases b <;> cases h

theorem eq_iff_equal_of_order? {a b : Value} {o : Ordering} (h : order? heap a b = some o) :
    o = .eq ↔ equal heap a b = true :=
  eq_iff_of_orderWithin heap maxLevels h

/-! ### What values hold -/

/-- What a value holds, wherever its lists are. -/
inductive Holding where
  | none
  /-- A whole number or a truth value. -/
  | number (n : Int)
  | text (s : String)
  /-- A list without items. -/
  | empty
  /-- A list with a first item. -/
  | item (first rest : Holding)
  deriving DecidableEq

namespace Holding

/-- The order of holdings, where it is defined. -/
def order? : Holding → Holding → Option Ordering
  | .number m, .number n => some (compare m n)
  | .text s, .text t => some (compare s t)
  | .empty, .empty => some .eq
  | .empty, .item _ _ => some .lt
  | .item _ _, .empty => some .gt
  | .item x xs, .item y ys => if x = y then order? xs ys else order? x y
  | _, _ => Option.none

/-- Holdings in order are equal if and only if they are the same. -/
theorem eq_iff_of_order? {a b : Holding} {o : Ordering} (h : a.order? b = some o) : o = .eq ↔ a = b := by
  fun_induction order? a b generalizing o with
  | case1 m n =>
    cases h
    rw [Std.LawfulEqOrd.compare_eq_iff_eq, number.injEq]
  | case2 s t =>
    cases h
    rw [Std.LawfulEqOrd.compare_eq_iff_eq, text.injEq]
  | case3 =>
    cases h
    simp
  | case4 | case5 =>
    cases h
    simp
  | case6 xs x ys ih =>
    rw [ih h, item.injEq]
    simp
  | case7 x xs y ys hne ih =>
    rw [ih h, item.injEq]
    simp [hne]
  | case8 => cases h

theorem order?_self_ne_lt (a : Holding) : a.order? a ≠ some .lt := by
  intro h
  have heq := (eq_iff_of_order? h).mpr rfl
  cases heq

/-- Less than something less is less. -/
theorem order?_trans {a b c : Holding} (hab : a.order? b = some .lt) (hbc : b.order? c = some .lt) :
    a.order? c = some .lt := by
  fun_induction order? a b generalizing c with
  | case1 m n =>
    cases c <;> simp only [order?, reduceCtorEq] at hbc
    simp only [order?, Option.some.injEq] at hab hbc ⊢
    exact Std.TransCmp.lt_trans hab hbc
  | case2 s t =>
    cases c <;> simp only [order?, reduceCtorEq] at hbc
    simp only [order?, Option.some.injEq] at hab hbc ⊢
    exact Std.TransCmp.lt_trans hab hbc
  | case3 => cases hab
  | case4 y ys =>
    cases c <;> simp only [order?, reduceCtorEq] at hbc ⊢
    cases hbc
  | case5 => cases hab
  | case6 xs x ys ih =>
    cases c with
    | item z zs =>
      by_cases hxz : x = z
      · rw [order?, if_pos hxz] at hbc ⊢
        exact ih hab hbc
      · rw [order?, if_neg hxz] at hbc ⊢
        exact hbc
    | _ => simp [order?] at hbc
  | case7 x xs y ys hxy ih =>
    cases c with
    | item z zs =>
      by_cases hyz : y = z
      · subst hyz
        rw [order?, if_neg hxy]
        exact hab
      · rw [order?, if_neg hyz] at hbc
        have hxz := ih hab hbc
        have hne : x ≠ z := by
          rintro rfl
          exact order?_self_ne_lt x hxz
        rw [order?, if_neg hne]
        exact hxz
    | _ => simp [order?] at hbc
  | case8 => cases hab

/-- At most what is at most something else is at most that. -/
theorem order?_le_trans {a b c : Holding} {o p : Ordering} (hab : a.order? b = some o) (ho : o ≠ .gt)
    (hbc : b.order? c = some p) (hp : p ≠ .gt) : ∃ q, a.order? c = some q ∧ q ≠ .gt := by
  cases o with
  | eq =>
    obtain rfl := (eq_iff_of_order? hab).mp rfl
    exact ⟨p, hbc, hp⟩
  | lt =>
    cases p with
    | eq =>
      obtain rfl := (eq_iff_of_order? hbc).mp rfl
      exact ⟨.lt, hab, ho⟩
    | lt => exact ⟨.lt, order?_trans hab hbc, ho⟩
    | gt => exact absurd rfl hp
  | gt => exact absurd rfl ho

/-- The holding of a list. -/
def ofItems (items : List Holding) : Holding := items.foldr item empty

theorem ofItems_inj {xs ys : List Holding} : ofItems xs = ofItems ys ↔ xs = ys := by
  induction xs generalizing ys with
  | nil => cases ys <;> simp [ofItems]
  | cons x xs ih =>
    cases ys with
    | nil => simp [ofItems]
    | cons y ys => simpa [ofItems] using fun _ => ih

section

variable {α : Type} {f : α → Holding} {p : α × α → Bool}

/-- Lists hold the same if they are of one size and their items hold the same, pair by pair. -/
theorem map_eq_map_iff {xs ys : List α} (hp : ∀ x ∈ xs, ∀ y ∈ ys, p (x, y) = true ↔ f x = f y) :
    xs.map f = ys.map f ↔ xs.length = ys.length ∧ (xs.zip ys).all p = true := by
  induction xs generalizing ys with
  | nil => cases ys <;> simp
  | cons x xs ih =>
    cases ys with
    | nil => simp
    | cons y ys =>
      have hrest := ih fun a ha b hb => hp a (.tail x ha) b (.tail y hb)
      simp only [List.map_cons, List.cons.injEq, hrest, ← hp x (.head xs) y (.head ys), List.length_cons,
        Nat.add_right_cancel_iff, List.zip_cons_cons, List.all_cons, Bool.and_eq_true]
      exact and_left_comm

theorem compare_length_cons (x y : α) (xs ys : List α) :
    compare (x :: xs).length (y :: ys).length = compare xs.length ys.length := by
  simp [compare, compareOfLessAndEq]

/-- Lists are ordered by their first difference, and by their sizes if there is none. -/
theorem order?_ofItems {xs ys : List α} (hp : ∀ x ∈ xs, ∀ y ∈ ys, p (x, y) = true ↔ f x ≠ f y) :
    (ofItems (xs.map f)).order? (ofItems (ys.map f)) =
      ((xs.zip ys).find? p).elim (some (compare xs.length ys.length)) fun pair => (f pair.1).order? (f pair.2) := by
  induction xs generalizing ys with
  | nil => cases ys <;> rfl
  | cons x xs ih =>
    cases ys with
    | nil => rfl
    | cons y ys =>
      have hxy := hp x (.head xs) y (.head ys)
      show (item (f x) (ofItems (xs.map f))).order? (item (f y) (ofItems (ys.map f))) = _
      rw [order?, List.zip_cons_cons, List.find?_cons, compare_length_cons]
      by_cases heq : f x = f y
      · rw [if_pos heq, ih fun a ha b hb => hp a (.tail x ha) b (.tail y hb)]
        rw [Bool.eq_false_iff.mpr fun h => hxy.mp h heq]
      · rw [if_neg heq, hxy.mpr heq]
        rfl

end

end Holding

namespace Value

/-- What a value holds that is no double and no function, down to so many levels. -/
def holding (heap : Heap) : Nat → Value → Holding
  | 0, _ => .none
  | levels + 1, v =>
    match v with
    | .bool b => .number (wordOfBool b).toInt
    | .int i => .number i.toInt
    | .str s => .text s
    | .list ref => .ofItems ((heap.items ref).toList.map (holding heap levels))
    | .none | .float _ | .function _ | .builtin _ => .none

/-- Whether a value is `None`, a truth value, an integer, a text or a list of such values, and nothing lies
below so many levels. -/
def isDiscrete (heap : Heap) : Nat → Value → Bool
  | 0, _ => false
  | levels + 1, v =>
    match v with
    | .none | .bool _ | .int _ | .str _ => true
    | .list ref => (heap.items ref).toList.all (isDiscrete heap levels)
    | .float _ | .function _ | .builtin _ => false

end Value

theorem isDiscrete_of_mem {levels : Nat} {r : Ref} {v : Value}
    (h : (Value.list r).isDiscrete heap (levels + 1) = true) (hv : v ∈ (heap.items r).toList) :
    v.isDiscrete heap levels = true :=
  List.all_eq_true.mp h v hv

theorem equalWithin_iff_holding_of_words {levels : Nat} {a b : Value} {m n : Int64} (ha : a.int? = some m)
    (hb : b.int? = some n) :
    equalWithin heap (levels + 1) a b = true ↔ a.holding heap (levels + 1) = b.holding heap (levels + 1) := by
  have hwords : equalWithin heap (levels + 1) a b = (m == n) := by
    cases a <;> cases ha <;> cases b <;> cases hb <;> rfl
  have hholding {v : Value} {w : Int64} (h : v.int? = some w) :
      v.holding heap (levels + 1) = .number w.toInt := by
    cases v <;> cases h <;> rfl
  rw [hwords, hholding ha, hholding hb, Holding.number.injEq, Int64.toInt_inj, beq_iff_eq]

/-- Values are equal if and only if they hold the same. -/
theorem equalWithin_iff_holding (heap : Heap) : ∀ (levels : Nat) {a b : Value}, a.isDiscrete heap levels = true →
    b.isDiscrete heap levels = true →
    (equalWithin heap levels a b = true ↔ a.holding heap levels = b.holding heap levels)
  | 0, a, b, ha, hb => by cases ha
  | levels + 1, a, b, ha, hb => by
    cases a with
    | list r =>
      cases b with
      | list q =>
        have hpairs := Holding.map_eq_map_iff (p := fun pair => equalWithin heap levels pair.1 pair.2)
          fun x hx y hy => equalWithin_iff_holding heap levels (isDiscrete_of_mem ha hx) (isDiscrete_of_mem hb hy)
        rw [equalWithin_list, Value.holding, Value.holding, Holding.ofItems_inj, hpairs, or_iff_right_iff_imp]
        -- One list under one reference holds the same as itself.
        rintro rfl
        exact hpairs.mp rfl
      | none | bool | int | str =>
        cases hitems : (heap.items r).toList <;>
          simp [equalWithin, Value.number?, Value.holding, hitems, Holding.ofItems]
      | float | function | builtin => cases hb
    | bool | int =>
      cases b with
      | bool | int => exact equalWithin_iff_holding_of_words rfl rfl
      | list q =>
        cases hitems : (heap.items q).toList <;>
          simp [equalWithin, Value.number?, Value.holding, hitems, Holding.ofItems]
      | none | str => simp [equalWithin, Value.number?, Value.holding]
      | float | function | builtin => cases hb
    | none | str =>
      cases b with
      | list q =>
        cases hitems : (heap.items q).toList <;>
          simp [equalWithin, Value.number?, Value.holding, hitems, Holding.ofItems]
      | none | bool | int | str => simp [equalWithin, Value.number?, Value.holding]
      | float | function | builtin => cases hb
    | float | function | builtin => cases ha

/-- Values are ordered as what they hold is. -/
theorem orderWithin_eq_holding (heap : Heap) : ∀ (levels : Nat) {a b : Value}, a.isDiscrete heap levels = true →
    b.isDiscrete heap levels = true →
    orderWithin heap levels a b = (a.holding heap levels).order? (b.holding heap levels)
  | 0, a, b, ha, hb => by cases ha
  | levels + 1, a, b, ha, hb => by
    cases a with
    | list r =>
      cases b with
      | list q =>
        have hdiffers : ∀ x ∈ (heap.items r).toList, ∀ y ∈ (heap.items q).toList,
            (!equalWithin heap levels x y) = true ↔ x.holding heap levels ≠ y.holding heap levels := by
          intro x hx y hy
          rw [Bool.not_eq_true', ← Bool.not_eq_true, ne_eq, not_iff_not]
          exact equalWithin_iff_holding heap levels (isDiscrete_of_mem ha hx) (isDiscrete_of_mem hb hy)
        rw [orderWithin_list, Value.holding, Value.holding,
          Holding.order?_ofItems (p := fun pair => !equalWithin heap levels pair.1 pair.2) hdiffers]
        cases hfound : ((heap.items r).toList.zip (heap.items q).toList).find?
            fun pair => !equalWithin heap levels pair.1 pair.2 with
        | none => rfl
        | some pair =>
          have hmem := List.of_mem_zip (List.mem_of_find?_eq_some hfound)
          exact orderWithin_eq_holding heap levels (isDiscrete_of_mem ha hmem.1) (isDiscrete_of_mem hb hmem.2)
      | none | bool | int | str =>
        cases hitems : (heap.items r).toList <;>
          simp [orderWithin, Value.number?, Value.holding, hitems, Holding.ofItems, Holding.order?]
      | float | function | builtin => cases hb
    | bool | int =>
      cases b with
      | bool | int => rfl
      | list q =>
        cases hitems : (heap.items q).toList <;>
          simp [orderWithin, Value.number?, Value.holding, hitems, Holding.ofItems, Holding.order?]
      | none | str => rfl
      | float | function | builtin => cases hb
    | none | str =>
      cases b with
      | list q =>
        cases hitems : (heap.items q).toList <;>
          simp [orderWithin, Value.number?, Value.holding, hitems, Holding.ofItems, Holding.order?]
      | none | bool | int | str => rfl
      | float | function | builtin => cases hb
    | float | function | builtin => cases ha

/-! ### The laws -/

theorem compareValues_of_order? {a b : Value} {o : Ordering} (h : order? heap a b = some o) :
    compareValues heap .lt a b = .ok (o == .lt) ∧ compareValues heap .gt a b = .ok (o == .gt) ∧
      compareValues heap .le a b = .ok (o != .gt) ∧ compareValues heap .ge a b = .ok (o != .lt) := by
  simp only [compareValues, orderFor, h]
  exact ⟨rfl, rfl, rfl, rfl⟩

theorem compareValues_of_order?_eq_none {a b : Value} {op : CompareOp} (h : order? heap a b = none)
    (hop : op = .lt ∨ op = .gt ∨ op = .le ∨ op = .ge) :
    compareValues heap op a b = .error (.unordered op a.kind b.kind) := by
  obtain rfl | rfl | rfl | rfl := hop <;> simp only [compareValues, orderFor, h] <;> rfl

theorem order?_of_lt {a b : Value} {less : Bool} (h : compareValues heap .lt a b = .ok less) :
    ∃ o, order? heap a b = some o ∧ less = (o == .lt) := by
  cases horder : order? heap a b with
  | none =>
    rw [compareValues_of_order?_eq_none horder (.inl rfl)] at h
    cases h
  | some o =>
    rw [(compareValues_of_order? horder).1] at h
    cases h
    exact ⟨o, rfl, rfl⟩

/-- Integers and truth values are compared as integers. -/
theorem lt_of_words {a b : Value} {m n : Int64} (ha : a.int? = some m) (hb : b.int? = some n) :
    compareValues heap .lt a b = .ok (decide (m.toInt < n.toInt)) := by
  have horder : order? heap a b = some (compare m.toInt n.toInt) := by
    cases a <;> cases ha <;> cases b <;> cases hb <;> rfl
  rw [(compareValues_of_order? horder).1, Except.ok.injEq, Bool.eq_iff_iff, beq_iff_eq, decide_eq_true_iff]
  exact Std.compare_eq_lt

theorem lt_of_texts (s t : String) : compareValues heap .lt (.str s) (.str t) = .ok (decide (s < t)) := by
  have horder : order? heap (.str s) (.str t) = some (compare s t) := rfl
  rw [(compareValues_of_order? horder).1, Except.ok.injEq, Bool.eq_iff_iff, beq_iff_eq, decide_eq_true_iff]
  exact compareOfLessAndEq_eq_lt

/-- One of two values is less than the other or they are equal, and not two of these, and the operators say so:
whether `a` is less than `b`, the same and more. -/
structure Compared (heap : Heap) (a b : Value) (less same more : Bool) : Prop where
  exactly_one : (less, same, more) ∈ [(true, false, false), (false, true, false), (false, false, true)]
  lt : compareValues heap .lt a b = .ok less
  eq : compareValues heap .eq a b = .ok same
  lt_back : compareValues heap .lt b a = .ok more
  le : compareValues heap .le a b = .ok (less || same)
  gt : compareValues heap .gt a b = .ok more
  ge : compareValues heap .ge a b = .ok (more || same)

/-- The laws of the comparison operators, for the values of a class. -/
structure LawfulOn (heap : Heap) (P : Value → Prop) : Prop where
  refl : ∀ a, P a → compareValues heap .eq a a = .ok true
  symm : ∀ a b, P a → P b → compareValues heap .eq a b = .ok true → compareValues heap .eq b a = .ok true
  trans : ∀ a b c, P a → P b → P c → compareValues heap .eq a b = .ok true →
    compareValues heap .eq b c = .ok true → compareValues heap .eq a c = .ok true
  trichotomy : ∀ a b less, P a → P b → compareValues heap .lt a b = .ok less →
    ∃ same more, Compared heap a b less same more
  /-- Values without an order are so for all operators that ask for it. -/
  unordered : ∀ a b fault, P a → P b → compareValues heap .lt a b = .error fault → ∀ op,
    op = .le ∨ op = .gt ∨ op = .ge → ∃ fault', compareValues heap op a b = .error fault'
  lt_trans : ∀ a b c, P a → P b → P c → compareValues heap .lt a b = .ok true →
    compareValues heap .lt b c = .ok true → compareValues heap .lt a c = .ok true
  /-- Integers are in order, truth values among them. -/
  words : ∀ a b m n, P a → P b → a.int? = some m → b.int? = some n →
    compareValues heap .lt a b = .ok (decide (m.toInt < n.toInt))
  /-- Texts are in order. -/
  texts : ∀ s t, P (.str s) → P (.str t) → compareValues heap .lt (.str s) (.str t) = .ok (decide (s < t))

theorem order?_eq_holding {a b : Value} (ha : a.isDiscrete heap maxLevels = true)
    (hb : b.isDiscrete heap maxLevels = true) :
    order? heap a b = (a.holding heap maxLevels).order? (b.holding heap maxLevels) :=
  orderWithin_eq_holding heap maxLevels ha hb

theorem compareValues_eq_iff_holding {a b : Value} (ha : a.isDiscrete heap maxLevels = true)
    (hb : b.isDiscrete heap maxLevels = true) :
    compareValues heap .eq a b = .ok true ↔ a.holding heap maxLevels = b.holding heap maxLevels := by
  rw [← equalWithin_iff_holding heap maxLevels ha hb, compareValues, equal, Except.ok.injEq]

theorem compareValues_lt_iff_holding {a b : Value} (ha : a.isDiscrete heap maxLevels = true)
    (hb : b.isDiscrete heap maxLevels = true) :
    compareValues heap .lt a b = .ok true ↔
      (a.holding heap maxLevels).order? (b.holding heap maxLevels) = some .lt := by
  rw [← order?_eq_holding ha hb]
  constructor
  · intro h
    obtain ⟨o, ho, hless⟩ := order?_of_lt h
    rw [ho, eq_of_beq hless.symm]
  · intro h
    exact (compareValues_of_order? h).1

/-- All operators agree on values that are in order. -/
theorem compared_of_lt {a b : Value} {less : Bool} (h : compareValues heap .lt a b = .ok less) :
    ∃ same more, Compared heap a b less same more := by
  obtain ⟨o, ho, rfl⟩ := order?_of_lt h
  obtain ⟨-, hgt, hle, hge⟩ := compareValues_of_order? ho
  have hback : order? heap b a = some o.swap := by rw [order?_swap, ho, Option.map_some]
  have hsame : equal heap a b = (o == .eq) := by
    rw [Bool.eq_iff_iff, beq_iff_eq]
    exact (eq_iff_equal_of_order? ho).symm
  refine ⟨o == .eq, o.swap == .lt, ?_, h, congrArg Except.ok hsame, (compareValues_of_order? hback).1, ?_, ?_, ?_⟩
  · cases o <;> simp
  · rw [hle]
    cases o <;> rfl
  · rw [hgt]
    cases o <;> rfl
  · rw [hge]
    cases o <;> rfl

/-- Comparison is lawful on `None`, truth values, integers, texts and lists of them that are nested 64 levels
deep at most. -/
theorem compareValues_lawful (heap : Heap) : LawfulOn heap fun v => v.isDiscrete heap maxLevels = true where
  refl a ha := (compareValues_eq_iff_holding ha ha).mpr rfl
  symm a b ha hb h :=
    (compareValues_eq_iff_holding hb ha).mpr ((compareValues_eq_iff_holding ha hb).mp h).symm
  trans a b c ha hb hc hab hbc :=
    (compareValues_eq_iff_holding ha hc).mpr
      (((compareValues_eq_iff_holding ha hb).mp hab).trans ((compareValues_eq_iff_holding hb hc).mp hbc))
  trichotomy _ _ _ _ _ := compared_of_lt
  unordered a b fault _ _ h op hop := by
    cases horder : order? heap a b with
    | none => exact ⟨_, compareValues_of_order?_eq_none horder (.inr (by tauto))⟩
    | some o =>
      rw [(compareValues_of_order? horder).1] at h
      cases h
  lt_trans a b c ha hb hc hab hbc :=
    (compareValues_lt_iff_holding ha hc).mpr
      (Holding.order?_trans ((compareValues_lt_iff_holding ha hb).mp hab)
        ((compareValues_lt_iff_holding hb hc).mp hbc))
  words _ _ _ _ _ _ := lt_of_words
  texts s t _ _ := lt_of_texts s t

/-- `[[1, "a"]]`, `[[True, "b"]]` and `[[2]]` are in order, the first and the last one because of the one
between them. -/
theorem compareValues_lawful_nested :
    let heap : Heap := #[#[.int 1, .str "a"], #[.bool true, .str "b"], #[.int 2], #[.list 0], #[.list 1], #[.list 2]]
    ((Value.list 3).isDiscrete heap maxLevels = true ∧ (Value.list 4).isDiscrete heap maxLevels = true ∧
        (Value.list 5).isDiscrete heap maxLevels = true) ∧
      (compareValues heap .lt (.list 3) (.list 4) = .ok true ∧ compareValues heap .lt (.list 4) (.list 5) = .ok true) ∧
      compareValues heap .lt (.list 3) (.list 5) = .ok true := by
  intro heap
  have hfirst : compareValues heap .lt (.list 3) (.list 4) = .ok true := by rfl
  have hlast : compareValues heap .lt (.list 4) (.list 5) = .ok true := by rfl
  exact ⟨⟨rfl, rfl, rfl⟩, ⟨hfirst, hlast⟩, (compareValues_lawful heap).lt_trans _ _ _ rfl rfl rfl hfirst hlast⟩

end ProgramBreeding

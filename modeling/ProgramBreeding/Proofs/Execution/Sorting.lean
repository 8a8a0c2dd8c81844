import ProgramBreeding.Proofs.Execution.Comparison
import ProgramBreeding.Proofs.Execution.Sizes
import ProgramBreeding.Proofs.Execution.Untouched

/-!
# Sorting is stable

Values that are ordered one way come out in that order, equal ones as they went in.  Values that cannot be
ordered with each other are never passed over in silence.

## Main definitions

* `AtMost` — one value may stand before another one.
* `Preordered` — the values of a class are all ordered, and in one way.
* `Merges`, `Sorts` — the choices that merging and sorting make.
* `StablySorted` — lists of which one is the other one in increasing order.
* `unordered_of_sortValues` — sorting fails on values without an order only.
* `sortValues_stable` — what sorting yields, and when it is sure to fail.
* `sortValues_of_sorted`, `sortValues_of_sort` — the function `sorted` and the method `sort` sort so.

## Design notes

`Merges` and `Sorts` leave out the accumulator and the counts of the functions, so that what they preserve are
inductions on the choices made.  That the values of a list which was sorted are all of one family needs no look
at the order in which they were compared: two halves that are not empty are compared at least once.
-/

namespace ProgramBreeding

variable {heap : Heap} {items sorted left right merged : List Value} {v x y z : Value} {P : Value → Prop}

/-! ### The order of values -/

/-- `x` may stand before `y`. -/
def AtMost (heap : Heap) (x y : Value) : Prop := ∃ o, order? heap x y = some o ∧ o ≠ .gt

theorem AtMost.of_lt (h : order? heap x y = some .lt) : AtMost heap x y := ⟨.lt, h, by decide⟩

theorem AtMost.of_not_lt {o : Ordering} (h : order? heap y x = some o) (ho : o ≠ .lt) : AtMost heap x y := by
  refine ⟨o.swap, by rw [order?_swap, h, Option.map_some], ?_⟩
  cases o with
  | lt => exact absurd rfl ho
  | eq | gt => decide

theorem AtMost.not_lt (h : AtMost heap x y) : order? heap y x ≠ some .lt := by
  obtain ⟨o, ho, hne⟩ := h
  rw [order?_swap, ho, Option.map_some]
  cases o with
  | gt => exact absurd rfl hne
  | eq | lt => decide

/-- The order is defined on all values of a class, and there it is a total preorder. -/
structure Preordered (heap : Heap) (P : Value → Prop) : Prop where
  defined : ∀ x y, P x → P y → (order? heap x y).isSome
  trans : ∀ x y z, P x → P y → P z → AtMost heap x y → AtMost heap y z → AtMost heap x z

/-- Of two values one may stand before the other one, and each before itself. -/
theorem Preordered.total (h : Preordered heap P) (hx : P x) (hy : P y) : AtMost heap x y ∨ AtMost heap y x := by
  obtain ⟨o, ho⟩ := Option.isSome_iff_exists.mp (h.defined x y hx hy)
  by_cases hlt : o = .lt
  · exact .inl (.of_lt (hlt ▸ ho))
  · exact .inr (.of_not_lt ho hlt)

theorem Preordered.of_equal (h : Preordered heap P) (hx : P x) (hy : P y) (hequal : equal heap x y = true) :
    AtMost heap x y ∧ AtMost heap y x := by
  obtain ⟨o, ho⟩ := Option.isSome_iff_exists.mp (h.defined x y hx hy)
  obtain rfl := (eq_iff_equal_of_order? ho).mpr hequal
  exact ⟨⟨.eq, ho, by decide⟩, .of_not_lt ho (by decide)⟩

theorem preordered_of_discrete (hdiscrete : ∀ v, P v → v.isDiscrete heap maxLevels = true)
    (hdefined : ∀ x y, P x → P y → (order? heap x y).isSome) : Preordered heap P where
  defined := hdefined
  trans x y z hx hy hz := by
    rintro ⟨o, hxy, ho⟩ ⟨p, hyz, hp⟩
    rw [order?_eq_holding (hdiscrete x hx) (hdiscrete y hy)] at hxy
    rw [order?_eq_holding (hdiscrete y hy) (hdiscrete z hz)] at hyz
    unfold AtMost
    rw [order?_eq_holding (hdiscrete x hx) (hdiscrete z hz)]
    exact Holding.order?_le_trans hxy ho hyz hp

/-! ### Merging -/

/-- How two lists are merged: the first value of the right one comes next only if it is less. -/
inductive Merges (heap : Heap) : List Value → List Value → List Value → Prop
  | leftEnds (right : List Value) : Merges heap [] right right
  | rightEnds (left : List Value) : Merges heap left [] left
  | fromRight {x y : Value} {left right merged : List Value} (h : order? heap y x = some .lt)
      (rest : Merges heap (x :: left) right merged) : Merges heap (x :: left) (y :: right) (y :: merged)
  | fromLeft {x y : Value} {left right merged : List Value} {o : Ordering} (h : order? heap y x = some o)
      (ho : o ≠ .lt) (rest : Merges heap left (y :: right) merged) :
      Merges heap (x :: left) (y :: right) (x :: merged)

/-- Where both lists go on, merging fails, or takes the first value of the right one if it is less, or else that
of the left one. -/
theorem mergeValues_cons (heap : Heap) (count : Nat) (acc : List Value) (x y : Value) (left right : List Value) :
    order? heap y x = none ∧
        mergeValues heap (count + 1) acc (x :: left) (y :: right) = .error (.unordered .lt y.kind x.kind) ∨
      order? heap y x = some .lt ∧
        mergeValues heap (count + 1) acc (x :: left) (y :: right) =
          mergeValues heap count (y :: acc) (x :: left) right ∨
      ∃ o, order? heap y x = some o ∧ o ≠ .lt ∧
        mergeValues heap (count + 1) acc (x :: left) (y :: right) =
          mergeValues heap count (x :: acc) left (y :: right) := by
  rw [mergeValues, orderFor]
  cases order? heap y x with
  | none => exact .inl ⟨rfl, rfl⟩
  | some o =>
    cases o with
    | lt => exact .inr (.inl ⟨rfl, rfl⟩)
    | eq | gt => exact .inr (.inr ⟨_, rfl, by decide, rfl⟩)

theorem merges_of_mergeValues : ∀ {count : Nat} {acc left right sorted : List Value},
    left.length + right.length ≤ count → mergeValues heap count acc left right = .ok sorted →
      ∃ merged, sorted = acc.reverse ++ merged ∧ Merges heap left right merged
  | 0, acc, left, right, sorted, hcount, h => by
    cases h
    obtain ⟨hleft, hright⟩ := Nat.add_eq_zero_iff.mp (Nat.le_zero.mp hcount)
    rw [List.length_eq_zero_iff] at hleft hright
    subst hleft hright
    exact ⟨[], by simp, .leftEnds []⟩
  | count + 1, acc, [], right, sorted, _, h => by
    cases h
    exact ⟨right, rfl, .leftEnds right⟩
  | count + 1, acc, x :: left, [], sorted, _, h => by
    cases h
    exact ⟨x :: left, rfl, .rightEnds _⟩
  | count + 1, acc, x :: left, y :: right, sorted, hcount, h => by
    simp only [List.length_cons] at hcount
    obtain ⟨_, hstep⟩ | ⟨hlt, hstep⟩ | ⟨o, horder, hne, hstep⟩ := mergeValues_cons heap count acc x y left right
    · rw [hstep] at h
      cases h
    · obtain ⟨merged, rfl, hmerged⟩ :=
        merges_of_mergeValues (by rw [List.length_cons]; omega) (hstep ▸ h)
      exact ⟨y :: merged, by simp, .fromRight hlt hmerged⟩
    · obtain ⟨merged, rfl, hmerged⟩ :=
        merges_of_mergeValues (by rw [List.length_cons]; omega) (hstep ▸ h)
      exact ⟨x :: merged, by simp, .fromLeft horder hne hmerged⟩

theorem unordered_of_mergeValues : ∀ {count : Nat} {acc left right : List Value} {fault : Fault},
    mergeValues heap count acc left right = .error fault →
      ∃ x ∈ left, ∃ y ∈ right, order? heap y x = none ∧ fault = .unordered .lt y.kind x.kind
  | 0, acc, left, right, fault, h => by cases h
  | count + 1, acc, [], right, fault, h => by cases h
  | count + 1, acc, x :: left, [], fault, h => by cases h
  | count + 1, acc, x :: left, y :: right, fault, h => by
    obtain ⟨hnone, hstep⟩ | ⟨_, hstep⟩ | ⟨_, _, _, hstep⟩ := mergeValues_cons heap count acc x y left right
    · rw [hstep] at h
      cases h
      exact ⟨x, .head _, y, .head _, hnone, rfl⟩
    · obtain ⟨x', hx', y', hy', hfault⟩ := unordered_of_mergeValues (hstep ▸ h)
      exact ⟨x', hx', y', .tail _ hy', hfault⟩
    · obtain ⟨x', hx', y', hy', hfault⟩ := unordered_of_mergeValues (hstep ▸ h)
      exact ⟨x', .tail _ hx', y', hy', hfault⟩

namespace Merges

theorem perm (h : Merges heap left right merged) : merged.Perm (left ++ right) := by
  induction h with
  | leftEnds right => exact .refl _
  | rightEnds left => exact .of_eq (List.append_nil left).symm
  | fromRight _ _ ih => exact (ih.cons _).trans List.perm_middle.symm
  | fromLeft _ _ _ ih => exact ih.cons _

/-- Merging compares a value of the one list with a value of the other one. -/
theorem exists_order? (h : Merges heap left right merged) (hleft : left ≠ []) (hright : right ≠ []) :
    ∃ x ∈ left, ∃ y ∈ right, ∃ o, order? heap y x = some o := by
  cases h with
  | leftEnds => exact absurd rfl hleft
  | rightEnds => exact absurd rfl hright
  | fromRight h => exact ⟨_, .head _, _, .head _, _, h⟩
  | fromLeft h => exact ⟨_, .head _, _, .head _, _, h⟩

section

variable (hP : Preordered heap P) (h : Merges heap left right merged) (hleft : ∀ x ∈ left, P x)
  (hright : ∀ y ∈ right, P y) (hsorted : left.Pairwise (AtMost heap))

include hP h hleft hright hsorted

theorem pairwise (hsorted' : right.Pairwise (AtMost heap)) : merged.Pairwise (AtMost heap) := by
  induction h with
  | leftEnds => exact hsorted'
  | rightEnds => exact hsorted
  | @fromRight x y left right merged hlt rest ih =>
    rw [List.forall_mem_cons] at hright
    rw [List.pairwise_cons] at hsorted' ⊢
    refine ⟨fun z hz => ?_, ih hleft hright.2 hsorted hsorted'.2⟩
    rw [rest.perm.mem_iff, List.cons_append, List.mem_cons, List.mem_append] at hz
    have hyx := AtMost.of_lt hlt
    rw [List.forall_mem_cons] at hleft
    obtain rfl | hz | hz := hz
    · exact hyx
    · exact hP.trans y x z hright.1 hleft.1 (hleft.2 z hz) hyx (List.rel_of_pairwise_cons hsorted hz)
    · exact hsorted'.1 z hz
  | @fromLeft x y left right merged o horder ho rest ih =>
    rw [List.forall_mem_cons] at hleft
    have hxy := AtMost.of_not_lt horder ho
    have hrest := ih hleft.2 hright hsorted.of_cons hsorted'
    rw [List.pairwise_cons]
    refine ⟨fun z hz => ?_, hrest⟩
    rw [rest.perm.mem_iff, List.mem_append, List.mem_cons] at hz
    rw [List.forall_mem_cons] at hright
    obtain hz | rfl | hz := hz
    · exact List.rel_of_pairwise_cons hsorted hz
    · exact hxy
    · exact hP.trans x y z hleft.1 hright.1 (hright.2 z hz) hxy (List.rel_of_pairwise_cons hsorted' hz)

/-- Merging leaves equal values in order, those of the left list first. -/
theorem filter_equal (hv : P v) :
    merged.filter (equal heap v) = left.filter (equal heap v) ++ right.filter (equal heap v) := by
  induction h with
  | leftEnds => rfl
  | rightEnds => exact (List.append_nil _).symm
  | @fromRight x y left right merged hlt rest ih =>
    have hrest := ih hleft (List.forall_mem_cons.mp hright).2 hsorted
    by_cases hy : equal heap v y = true
    · -- Values of the left list are not less than `x`, so none of them is equal to `y`, which is less than it.
      have hnone : (x :: left).filter (equal heap v) = [] := by
        rw [List.filter_eq_nil_iff]
        intro z hz hvz
        have hPx := hleft x (.head left)
        have hPy := hright y (.head right)
        have hxz : AtMost heap x z := by
          obtain rfl | hz := List.mem_cons.mp hz
          · exact (hP.total hPx hPx).elim id id
          · exact List.rel_of_pairwise_cons hsorted hz
        have hxv := hP.trans x z v hPx (hleft z hz) hv hxz (hP.of_equal hv (hleft z hz) hvz).2
        exact (hP.trans x v y hPx hv hPy hxv (hP.of_equal hv hPy hy).1).not_lt hlt
      rw [hnone, List.nil_append] at hrest ⊢
      rw [List.filter_cons_of_pos hy, List.filter_cons_of_pos hy, hrest]
    · rw [List.filter_cons_of_neg hy, List.filter_cons_of_neg hy, hrest]
  | @fromLeft x y left right merged o _ _ _ ih =>
    have hrest := ih (List.forall_mem_cons.mp hleft).2 hright hsorted.of_cons
    rw [List.filter_cons, hrest, List.filter_cons (x := x)]
    split <;> rfl

end

end Merges

/-! ### Sorting -/

/-- How a list is sorted: its halves are, and then merged. -/
inductive Sorts (heap : Heap) : List Value → List Value → Prop
  | short {items : List Value} (h : items.length ≤ 1) : Sorts heap items items
  | halves {items left right merged : List Value} (h : 1 < items.length)
      (hleft : Sorts heap (items.take (items.length / 2)) left)
      (hright : Sorts heap (items.drop (items.length / 2)) right) (hmerged : Merges heap left right merged) :
      Sorts heap items merged

/-- Sorting a list that is not short fails as one of its halves does, or else merges what they give. -/
theorem sortWithin_halves (heap : Heap) (depth : Nat) (hlong : 1 < items.length) :
    (∃ half, (half = items.take (items.length / 2) ∨ half = items.drop (items.length / 2)) ∧
        ∃ fault, sortWithin heap depth half = .error fault ∧ sortWithin heap (depth + 1) items = .error fault) ∨
      ∃ left right, sortWithin heap depth (items.take (items.length / 2)) = .ok left ∧
        sortWithin heap depth (items.drop (items.length / 2)) = .ok right ∧
        sortWithin heap (depth + 1) items = mergeValues heap items.length [] left right := by
  rw [sortWithin, if_neg (Nat.not_le.mpr hlong)]
  dsimp only
  cases hleft : sortWithin heap depth (items.take (items.length / 2)) with
  | error fault => exact .inl ⟨_, .inl rfl, fault, hleft, rfl⟩
  | ok left =>
    cases hright : sortWithin heap depth (items.drop (items.length / 2)) with
    | error fault => exact .inl ⟨_, .inr rfl, fault, hright, rfl⟩
    | ok right => exact .inr ⟨left, right, rfl, rfl, rfl⟩

theorem sortWithin_short (heap : Heap) (depth : Nat) (hshort : items.length ≤ 1) :
    sortWithin heap depth items = .ok items := by
  cases depth with
  | zero => rfl
  | succ depth => rw [sortWithin, if_pos hshort]

theorem sorts_of_sortWithin (depth : Nat) {items sorted : List Value} (hdepth : items.length ≤ depth)
    (h : sortWithin heap depth items = .ok sorted) : Sorts heap items sorted := by
  by_cases hlong : 1 < items.length
  · cases depth with
    | zero => exact absurd hlong (Nat.not_lt.mpr (Nat.le_succ_of_le hdepth))
    | succ depth =>
      obtain ⟨_, _, fault, _, herror⟩ | ⟨left, right, hleft, hright, hmerge⟩ := sortWithin_halves heap depth hlong
      · rw [herror] at h
        cases h
      · have hlength : left.length + right.length ≤ items.length := by
          rw [(sortWithin_perm hleft).length_eq, (sortWithin_perm hright).length_eq, ← List.length_append,
            List.take_append_drop]
        obtain ⟨merged, rfl, hmerged⟩ := merges_of_mergeValues hlength (hmerge ▸ h)
        refine .halves hlong (sorts_of_sortWithin depth ?_ hleft) (sorts_of_sortWithin depth ?_ hright) hmerged
        · rw [List.length_take]
          omega
        · rw [List.length_drop]
          omega
  · rw [sortWithin_short heap depth (Nat.not_lt.mp hlong)] at h
    cases h
    exact .short (Nat.not_lt.mp hlong)

theorem sorts_of_sortValues (h : sortValues heap items = .ok sorted) : Sorts heap items sorted :=
  sorts_of_sortWithin items.length (Nat.le_refl _) h

theorem unordered_of_sortWithin (depth : Nat) {items : List Value} {fault : Fault}
    (h : sortWithin heap depth items = .error fault) :
    ∃ x ∈ items, ∃ y ∈ items, order? heap y x = none ∧ fault = .unordered .lt y.kind x.kind := by
  by_cases hlong : 1 < items.length
  · cases depth with
    | zero => cases h
    | succ depth =>
      obtain ⟨half, hhalf, fault', hfails, herror⟩ | ⟨left, right, hleft, hright, hmerge⟩ :=
        sortWithin_halves heap depth hlong
      · rw [herror] at h
        cases h
        have hmem : ∀ v ∈ half, v ∈ items := by
          obtain rfl | rfl := hhalf
          · exact fun v => List.mem_of_mem_take
          · exact fun v => List.mem_of_mem_drop
        obtain ⟨x, hx, y, hy, hfault⟩ := unordered_of_sortWithin depth hfails
        exact ⟨x, hmem x hx, y, hmem y hy, hfault⟩
      · obtain ⟨x, hx, y, hy, hfault⟩ := unordered_of_mergeValues (hmerge ▸ h)
        rw [(sortWithin_perm hleft).mem_iff] at hx
        rw [(sortWithin_perm hright).mem_iff] at hy
        exact ⟨x, List.mem_of_mem_take hx, y, List.mem_of_mem_drop hy, hfault⟩
  · rw [sortWithin_short heap depth (Nat.not_lt.mp hlong)] at h
    cases h

/-- Sorting fails only on two values of the list that have no order, and names their kinds. -/
theorem unordered_of_sortValues {fault : Fault} (h : sortValues heap items = .error fault) :
    ∃ x ∈ items, ∃ y ∈ items, order? heap y x = none ∧ fault = .unordered .lt y.kind x.kind :=
  unordered_of_sortWithin items.length h

/-- `sorted` has the values of `items` in increasing order, and equal values of the class as `items` has them. -/
structure StablySorted (heap : Heap) (P : Value → Prop) (items sorted : List Value) : Prop where
  perm : sorted.Perm items
  pairwise : sorted.Pairwise (AtMost heap)
  stable : ∀ v, P v → sorted.filter (equal heap v) = items.filter (equal heap v)

namespace Sorts

theorem perm (h : Sorts heap items sorted) : sorted.Perm items := by
  induction h with
  | short => exact .refl _
  | halves _ _ _ hmerged ihleft ihright =>
    exact (hmerged.perm.trans (ihleft.append ihright)).trans (.of_eq (List.take_append_drop ..))

theorem stablySorted (hP : Preordered heap P) (h : Sorts heap items sorted) (hitems : ∀ v ∈ items, P v) :
    StablySorted heap P items sorted := by
  induction h with
  | @short items h =>
    exact ⟨.refl _, List.pairwise_iff_getElem.mpr fun i j hi hj hij => by omega, fun _ _ => rfl⟩
  | @halves items left right merged _ hleft hright hmerged ihleft ihright =>
    have hsorts := ihleft fun v hv => hitems v (List.mem_of_mem_take hv)
    have hsorts' := ihright fun v hv => hitems v (List.mem_of_mem_drop hv)
    have hPleft : ∀ v ∈ left, P v := fun v hv =>
      hitems v (List.mem_of_mem_take (hsorts.perm.mem_iff.mp hv))
    have hPright : ∀ v ∈ right, P v := fun v hv =>
      hitems v (List.mem_of_mem_drop (hsorts'.perm.mem_iff.mp hv))
    exact {
      perm := (halves ‹_› hleft hright hmerged).perm
      pairwise := hmerged.pairwise hP hPleft hPright hsorts.pairwise hsorts'.pairwise
      stable := fun v hv => by
        rw [hmerged.filter_equal hP hPleft hPright hsorts.pairwise hv, hsorts.stable v hv, hsorts'.stable v hv,
          ← List.filter_append, List.take_append_drop]
    }

end Sorts

theorem exists_stablySorted (hP : Preordered heap P) (hitems : ∀ v ∈ items, P v) :
    ∃ sorted, sortValues heap items = .ok sorted ∧ StablySorted heap P items sorted := by
  cases h : sortValues heap items with
  | ok sorted => exact ⟨sorted, rfl, (sorts_of_sortValues h).stablySorted hP hitems⟩
  | error fault =>
    obtain ⟨x, hx, y, hy, hnone, -⟩ := unordered_of_sortValues h
    have hsome := hP.defined y x (hitems y hy) (hitems x hx)
    rw [hnone] at hsome
    cases hsome

/-! ### Families of values -/

/-- The kind that stands for all the kinds of values which values of a kind may be ordered with. -/
def Kind.family? : Kind → Option Kind
  | .bool | .int | .float => some .int
  | .str => some .str
  | .list => some .list
  | .none | .function => Option.none

theorem family?_of_number {n : Num} (h : v.number? = some n) : v.kind.family? = some .int := by
  cases v <;> cases h <;> rfl

theorem family?_of_order? {o : Ordering} (h : order? heap x y = some o) :
    ∃ k, x.kind.family? = some k ∧ y.kind.family? = some k := by
  rw [order?, maxLevels] at h
  cases x <;> cases y <;> first | exact ⟨_, rfl, rfl⟩ | cases h

namespace Sorts

/-- Two halves that are sorted and merged have values that are ordered. -/
theorem exists_family? (hlong : 1 < items.length) (hleft : Sorts heap (items.take (items.length / 2)) left)
    (hright : Sorts heap (items.drop (items.length / 2)) right) (hmerged : Merges heap left right merged) :
    ∃ x ∈ items.take (items.length / 2), ∃ y ∈ items.drop (items.length / 2),
      ∃ k, x.kind.family? = some k ∧ y.kind.family? = some k := by
  have hne : left ≠ [] := by
    rintro rfl
    have hlength := hleft.perm.length_eq
    rw [List.length_nil, List.length_take] at hlength
    omega
  have hne' : right ≠ [] := by
    rintro rfl
    have hlength := hright.perm.length_eq
    rw [List.length_nil, List.length_drop] at hlength
    omega
  obtain ⟨x, hx, y, hy, o, horder⟩ := hmerged.exists_order? hne hne'
  obtain ⟨k, hky, hkx⟩ := family?_of_order? horder
  exact ⟨x, hleft.perm.mem_iff.mp hx, y, hright.perm.mem_iff.mp hy, k, hkx, hky⟩

theorem family?_eq (h : Sorts heap items sorted) : ∀ x ∈ items, ∀ y ∈ items, x.kind.family? = y.kind.family? := by
  induction h with
  | short h =>
    intro x hx y hy
    obtain ⟨i, hi, rfl⟩ := List.getElem_of_mem hx
    obtain ⟨j, hj, rfl⟩ := List.getElem_of_mem hy
    obtain rfl : i = j := by omega
    rfl
  | @halves items left right merged hlong hleft hright hmerged ihleft ihright =>
    obtain ⟨x, hx, y, hy, k, hkx, hky⟩ := exists_family? hlong hleft hright hmerged
    have hall : ∀ v ∈ items, v.kind.family? = some k := by
      intro v hv
      rw [← List.take_append_drop (items.length / 2) items, List.mem_append] at hv
      obtain hv | hv := hv
      · exact (ihleft v hv x hx).trans hkx
      · exact (ihright v hv y hy).trans hky
    intro v hv w hw
    rw [hall v hv, hall w hw]

/-- Several values that have been sorted are all of one family. -/
theorem exists_common_family? (h : Sorts heap items sorted) (hlong : 1 < items.length) :
    ∃ k, ∀ v ∈ items, v.kind.family? = some k := by
  have hcommon := h.family?_eq
  cases h with
  | short h => exact absurd hlong (Nat.not_lt.mpr h)
  | halves _ hleft hright hmerged =>
    obtain ⟨x, hx, _, _, k, hk, _⟩ := exists_family? hlong hleft hright hmerged
    exact ⟨k, fun v hv => (hcommon v hv x (List.mem_of_mem_take hx)).trans hk⟩

end Sorts

/-! ### What sorting yields -/

theorem preordered_of_words (hwords : ∀ v, P v → v.kind = .int ∨ v.kind = .bool) : Preordered heap P := by
  refine preordered_of_discrete (fun v hv => ?_) fun x y hx hy => ?_
  · obtain hkind | hkind := hwords v hv <;> cases v <;> cases hkind <;> rfl
  · obtain hkind | hkind := hwords x hx <;> cases x <;> cases hkind <;>
      obtain hkind | hkind := hwords y hy <;> cases y <;> cases hkind <;> rfl

theorem preordered_of_texts (htexts : ∀ v, P v → v.kind = .str) : Preordered heap P := by
  refine preordered_of_discrete (fun v hv => ?_) fun x y hx hy => ?_
  · have hkind := htexts v hv
    cases v <;> cases hkind
    rfl
  · have hkind := htexts x hx
    have hkind' := htexts y hy
    cases x <;> cases hkind
    cases y <;> cases hkind'
    rfl

/-- Lists of integers and truth values, lists of texts and all lists of values that are ordered in one way are
sorted, and equal values stay as they were.  A list with a number and a text is never sorted, nor is a longer
one with `None` or a function among its values. -/
theorem sortValues_stable (heap : Heap) (items : List Value) :
    ((∀ v ∈ items, v.kind = .int ∨ v.kind = .bool) ∨ (∀ v ∈ items, v.kind = .str) ∨
        Preordered heap (· ∈ items) →
      ∃ sorted, sortValues heap items = .ok sorted ∧ StablySorted heap (· ∈ items) items sorted) ∧
      ((∃ x ∈ items, ∃ y ∈ items, x.number?.isSome ∧ y.kind = .str) ∨
          1 < items.length ∧ (∃ v ∈ items, v.kind = .none ∨ v.kind = .function) →
        ∃ fault, sortValues heap items = .error fault) := by
  constructor
  · intro h
    have hP : Preordered heap (· ∈ items) := by
      obtain hwords | htexts | hP := h
      · exact preordered_of_words hwords
      · exact preordered_of_texts htexts
      · exact hP
    exact exists_stablySorted hP fun _ => id
  · intro h
    cases hsorted : sortValues heap items with
    | error fault => exact ⟨fault, rfl⟩
    | ok sorted =>
      have hsorts := sorts_of_sortValues hsorted
      obtain ⟨x, hx, y, hy, hnumber, htext⟩ | ⟨hlong, v, hv, hkind⟩ := h
      · obtain ⟨n, hn⟩ := Option.isSome_iff_exists.mp hnumber
        have hsame := hsorts.family?_eq x hx y hy
        rw [family?_of_number hn, htext] at hsame
        cases hsame
      · obtain ⟨k, hk⟩ := hsorts.exists_common_family? hlong
        have hfamily := hk v hv
        obtain hkind | hkind := hkind <;> rw [hkind] at hfamily <;> cases hfamily

/-- `True` and `1` stay in order, and with a text among them nothing is sorted. -/
theorem sortValues_stable_booleans :
    (∀ v ∈ [Value.int 2, .bool true, .int 1], v.kind = .int ∨ v.kind = .bool) ∧
      (∃ sorted, sortValues #[] [.int 2, .bool true, .int 1] = .ok sorted ∧
        StablySorted #[] (· ∈ [Value.int 2, .bool true, .int 1]) [.int 2, .bool true, .int 1] sorted) ∧
      sortValues #[] [.int 2, .bool true, .int 1] = .ok [.bool true, .int 1, .int 2] ∧
      ∃ fault, sortValues #[] [.int 2, .bool true, .str "1"] = .error fault := by
  have hwords : ∀ v ∈ [Value.int 2, .bool true, .int 1], v.kind = .int ∨ v.kind = .bool := by
    simp [Value.kind]
  obtain ⟨hsorted, -⟩ := sortValues_stable #[] [.int 2, .bool true, .int 1]
  obtain ⟨-, hfails⟩ := sortValues_stable #[] [.int 2, .bool true, .str "1"]
  exact ⟨hwords, hsorted (.inl hwords), rfl, hfails (.inl ⟨.int 2, by simp, .str "1", by simp, rfl, rfl⟩)⟩

/-! ### Sorting in programs -/

theorem ofExcept_eq_ok {α : Type} {result : Except Fault α} {a : α} {s t : State}
    (h : (ofExcept result).run s = .ok a t) : result = .ok a ∧ t = s := by
  cases result with
  | error fault => cases h
  | ok a =>
    cases h
    exact ⟨rfl, rfl⟩

theorem soleItems_eq_ok {budget : Budget} {name : String} {r : Ref} {items : Array Value} {s t : State}
    (h : (soleItems budget name [.list r]).run s = .ok items t) : items = s.heap.items r ∧ t.heap = s.heap := by
  obtain ⟨_, _, hcount, h⟩ := run_bind_eq_ok h
  cases hcount
  obtain ⟨_, _, hitems, h⟩ := run_bind_eq_ok h
  cases hitems
  obtain ⟨_, _, hcharge, hreturn⟩ := run_bind_eq_ok h
  cases hreturn
  exact ⟨rfl, ((Inspects.charge _ _).sameButMeter hcharge).heap_eq⟩

/-- The function `sorted` makes a new list of the sorted items. -/
theorem sortValues_of_sorted {budget : Budget} {r : Ref} {s t : State}
    (h : (callBuiltin budget .sorted [.list r]).run s = .ok v t) :
    ∃ q, v = .list q ∧ sortValues s.heap (s.heap.items r).toList = .ok (t.heap.items q).toList := by
  obtain ⟨items, u, hitems, h⟩ := run_bind_eq_ok h
  obtain ⟨rfl, hheap⟩ := soleItems_eq_ok hitems
  obtain ⟨_, _, hget, h⟩ := run_bind_eq_ok h
  cases hget
  obtain ⟨sorted, _, hsorted, hnew⟩ := run_bind_eq_ok h
  obtain ⟨hsorted, rfl⟩ := ofExcept_eq_ok hsorted
  cases hnew
  refine ⟨_, rfl, ?_⟩
  rw [hheap] at hsorted
  rw [Heap.items_push, if_pos rfl]
  exact hsorted

/-- The method `sort` sorts the items of its list in place. -/
theorem sortValues_of_sort {budget : Budget} {r : Ref} {s t : State}
    (h : (callListMethod budget r "sort" []).run s = .ok v t) :
    sortValues s.heap (s.heap.items r).toList = .ok (t.heap.items r).toList := by
  obtain ⟨_, _, hitems, h⟩ := run_bind_eq_ok h
  cases hitems
  obtain ⟨_, _, hcount, h⟩ := run_bind_eq_ok h
  cases hcount
  obtain ⟨_, u, hcharge, h⟩ := run_bind_eq_ok h
  have hheap := ((Inspects.charge _ _).sameButMeter hcharge).heap_eq
  obtain ⟨_, _, hget, h⟩ := run_bind_eq_ok h
  cases hget
  obtain ⟨sorted, _, hsorted, hupdate⟩ := run_bind_eq_ok h
  obtain ⟨hsorted, rfl⟩ := ofExcept_eq_ok hsorted
  cases hupdate
  rw [hheap] at hsorted
  rw [Heap.items_modify, hheap]
  by_cases hr : r < s.heap.size
  · rw [if_pos ⟨rfl, hr⟩]
    exact hsorted
  · have hempty : s.heap.items r = #[] := by
      rw [Heap.items, Array.getD_eq_getD_getElem?, Array.getElem?_eq_none (Nat.not_lt.mp hr)]
      rfl
    rw [if_neg fun h => hr h.2, hempty]
    rfl

end ProgramBreeding

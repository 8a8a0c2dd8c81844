import ProgramBreeding.Proofs.Execution.Simulation

/-!
# Plain data crossing the boundary of a run

Data become values with lists of their own, and values become data again as long as nothing lies too deep in them.
Values that become data have the text of the data.

## Main definitions

* `Datum.Lies`, `Datum.FitsIn` — how deep data lie in other data.
* `Heap.GrowsTo` — heaps with more lists.
* `Value.Conveys` — values that become given data, as far as the levels suffice.

## Main results

* `exists_ofDatum` — every datum becomes a value that conveys it, now and later.
* `textWithin_eq_text` — text and conversion count levels alike.
* `plainData_crosses` — data come back as they were, and look as they did inside.

## Design notes

A datum that lies 64 levels below the top is still converted, so 65 levels suffice for it.  The text of a value
has an ellipsis instead of a list below the last level, where the conversion has an error.
-/

namespace ProgramBreeding

/-! ### Levels -/

/-- A datum that lies a number of levels below the top of another one: the datum itself lies at the top, and the
items of a list lie one level below the list. -/
inductive Datum.Lies (part : Datum) : Nat → Datum → Prop
  | top : Lies part 0 part
  | item {level : Nat} {d : Datum} {items : List Datum} (hd : d ∈ items) (h : Lies part level d) :
      Lies part (level + 1) (.list items)

/-- Data of which all parts lie at the first levels, as many as are given. -/
def Datum.FitsIn (levels : Nat) (d : Datum) : Prop := ∀ part level, Datum.Lies part level d → level < levels

namespace Datum

variable {levels : Nat}

theorem not_fitsIn_zero (d : Datum) : ¬ d.FitsIn 0 := fun h => Nat.not_lt_zero 0 (h d 0 .top)

theorem fitsIn_list {items : List Datum} : (list items).FitsIn (levels + 1) ↔ ∀ d ∈ items, d.FitsIn levels := by
  constructor
  · intro h d hd part level hpart
    exact Nat.lt_of_succ_lt_succ (h part (level + 1) (.item hd hpart))
  · intro h part level hpart
    cases hpart with
    | top => exact Nat.succ_pos levels
    | item hd hpart => exact Nat.succ_lt_succ (h _ hd part _ hpart)

/-- Data without items lie at the top. -/
theorem fitsIn_leaf {d : Datum} (h : ∀ items, d ≠ list items) : d.FitsIn (levels + 1) := by
  intro part level hpart
  cases hpart with
  | top => exact Nat.succ_pos levels
  | item => exact absurd rfl (h _)

theorem texts_eq (ds : List Datum) : Datum.texts ds = ds.map Datum.text := by
  induction ds with
  | nil => rfl
  | cons d rest ih => rw [texts, ih, List.map_cons]

end Datum

/-! ### Heaps that grow -/

/-- A heap with more lists, in which the lists of the first one are as they were. -/
structure Heap.GrowsTo (heap heap' : Heap) : Prop where
  size : heap.size ≤ heap'.size
  items : ∀ ref < heap.size, heap'.items ref = heap.items ref

namespace Heap.GrowsTo

variable {heap heap' heap'' : Heap}

protected theorem rfl : heap.GrowsTo heap := ⟨Nat.le_refl _, fun _ _ => Eq.refl _⟩

theorem trans (h : heap.GrowsTo heap') (h' : heap'.GrowsTo heap'') : heap.GrowsTo heap'' where
  size := Nat.le_trans h.size h'.size
  items ref href := (h'.items ref (Nat.lt_of_lt_of_le href h.size)).trans (h.items ref href)

theorem push (heap : Heap) (items : Array Value) : heap.GrowsTo (heap.push items) where
  size := by
    rw [Array.size_push]
    exact Nat.le_succ _
  items ref href := by rw [Heap.items_push, if_neg (Nat.ne_of_lt href)]

end Heap.GrowsTo

/-! ### Values that convey data -/

/-- A value that becomes a datum if the levels suffice for it, and an error otherwise. -/
structure Value.Conveys (heap : Heap) (v : Value) (d : Datum) : Prop where
  fits : ∀ levels, d.FitsIn levels → v.toDatumWithin heap levels = .ok d
  tooDeep : ∀ levels, ¬ d.FitsIn levels → v.toDatumWithin heap levels = .error .nestedTooDeeply

namespace Value.Conveys

variable {heap : Heap} {v : Value} {d : Datum} {vs : List Value} {ds : List Datum} {levels : Nat}

/-- A datum without items needs one level. -/
theorem leaf (hd : ∀ items, d ≠ .list items) (h : ∀ levels, v.toDatumWithin heap (levels + 1) = .ok d) :
    v.Conveys heap d where
  fits
    | 0, hfits => absurd hfits d.not_fitsIn_zero
    | levels + 1, _ => h levels
  tooDeep
    | 0, _ => rfl
    | _ + 1, hdeep => absurd (Datum.fitsIn_leaf hd) hdeep

/-- By induction on the values: if the levels suffice for each of the data, all values are converted. -/
theorem mapM_eq_ok (h : List.Forall₂ (Value.Conveys heap) vs ds) (hfits : ∀ d ∈ ds, d.FitsIn levels) :
    vs.mapM (Value.toDatumWithin heap levels) = .ok ds := by
  induction h with
  | nil => rfl
  | cons hv _ ih =>
    obtain ⟨hd, hds⟩ := List.forall_mem_cons.mp hfits
    rw [List.mapM_cons, hv.fits levels hd, ih hds]
    rfl

/-- By induction on the values: if the levels do not suffice for all of the data, one of the values is not
converted. -/
theorem mapM_eq_error (h : List.Forall₂ (Value.Conveys heap) vs ds) (hdeep : ¬ ∀ d ∈ ds, d.FitsIn levels) :
    vs.mapM (Value.toDatumWithin heap levels) = .error .nestedTooDeeply := by
  induction h with
  | nil => exact absurd (List.forall_mem_nil _) hdeep
  | @cons v d vs ds hv _ ih =>
    rw [List.mapM_cons]
    by_cases hd : d.FitsIn levels
    · rw [hv.fits levels hd, ih fun hds => hdeep (List.forall_mem_cons.mpr ⟨hd, hds⟩)]
      rfl
    · rw [hv.tooDeep levels hd]
      rfl

/-- A list conveys what its items convey. -/
theorem list {ref : Ref} (h : List.Forall₂ (Value.Conveys heap) (heap.items ref).toList ds) :
    (Value.list ref).Conveys heap (.list ds) where
  fits
    | 0, hfits => absurd hfits (Datum.not_fitsIn_zero _)
    | levels + 1, hfits => by rw [toDatumWithin, mapM_eq_ok h (Datum.fitsIn_list.mp hfits)]; rfl
  tooDeep
    | 0, _ => rfl
    | levels + 1, hdeep => by rw [toDatumWithin, mapM_eq_error h (mt Datum.fitsIn_list.mpr hdeep)]; rfl

end Value.Conveys

mutual

/-- By induction on the datum: it becomes a value that conveys it, as long as its lists stay as they are. -/
theorem exists_ofDatum : ∀ (d : Datum) (s : State), ∃ v t, (Value.ofDatum d).run s = .ok v t ∧
    s.heap.GrowsTo t.heap ∧ ∀ heap, t.heap.GrowsTo heap → v.Conveys heap d
  | .none, s => ⟨.none, s, rfl, .rfl, fun _ _ => .leaf (by simp) fun _ => rfl⟩
  | .bool b, s => ⟨.bool b, s, rfl, .rfl, fun _ _ => .leaf (by simp) fun _ => rfl⟩
  | .int i, s => ⟨.int i, s, rfl, .rfl, fun _ _ => .leaf (by simp) fun _ => rfl⟩
  | .float x, s => ⟨.float x, s, rfl, .rfl, fun _ _ => .leaf (by simp) fun _ => rfl⟩
  | .str text, s => ⟨.str text, s, rfl, .rfl, fun _ _ => .leaf (by simp) fun _ => rfl⟩
  | .list items, s => by
    obtain ⟨vs, t, hrun, hgrows, hconveys⟩ := exists_ofData items s
    have hpush := Heap.GrowsTo.push t.heap vs.toArray
    refine ⟨.list t.heap.size, { t with heap := t.heap.push vs.toArray }, ?_, hgrows.trans hpush, fun heap hheap => ?_⟩
    · rw [Value.ofDatum, run_bind_ok hrun]
      rfl
    · have hitems : heap.items t.heap.size = vs.toArray := by
        rw [hheap.items _ (by simp), Heap.items_push, if_pos rfl]
      exact .list (by simpa [hitems] using hconveys heap (hpush.trans hheap))

theorem exists_ofData : ∀ (ds : List Datum) (s : State), ∃ vs t, (Value.ofData ds).run s = .ok vs t ∧
    s.heap.GrowsTo t.heap ∧ ∀ heap, t.heap.GrowsTo heap → List.Forall₂ (Value.Conveys heap) vs ds
  | [], s => ⟨[], s, rfl, .rfl, fun _ _ => .nil⟩
  | d :: rest, s => by
    obtain ⟨v, t, hrun, hgrows, hconveys⟩ := exists_ofDatum d s
    obtain ⟨vs, u, hrun', hgrows', hconveys'⟩ := exists_ofData rest t
    refine ⟨v :: vs, u, ?_, hgrows.trans hgrows', fun heap hheap => .cons ?_ ?_⟩
    · rw [Value.ofData, run_bind_ok hrun, run_bind_ok hrun']
      rfl
    · exact hconveys heap (hgrows'.trans hheap)
    · exact hconveys' heap hheap

end

/-! ### Texts -/

/-- By induction on the list: what is made of each item is what is made of what the item becomes. -/
theorem map_eq_of_mapM_eq_ok {α β γ ε : Type} {f : α → Except ε β} {g : α → γ} {k : β → γ}
    (hf : ∀ a b, f a = .ok b → g a = k b) : ∀ {as : List α} {bs : List β}, as.mapM f = .ok bs → as.map g = bs.map k
  | [], bs, h => by
    cases h
    rfl
  | a :: as, bs, h => by
    rw [List.mapM_cons] at h
    cases ha : f a with
    | error e =>
      rw [ha] at h
      cases h
    | ok b =>
      cases has : as.mapM f with
      | error e =>
        rw [ha, has] at h
        cases h
      | ok rest =>
        rw [ha, has] at h
        cases h
        rw [List.map_cons, List.map_cons, hf a b ha, map_eq_of_mapM_eq_ok hf has]

/-- By induction on the levels: a value that they suffice to convert has the text of the datum. -/
theorem textWithin_eq_text {heap : Heap} : ∀ {levels : Nat} {v : Value} {d : Datum},
    v.toDatumWithin heap levels = .ok d → v.textWithin heap levels = d.text
  | 0, _, _, h => by cases h
  | levels + 1, v, d, h => by
    cases v with
    | list ref =>
      rw [Value.toDatumWithin] at h
      cases hitems : (heap.items ref).toList.mapM (Value.toDatumWithin heap levels) with
      | error e =>
        rw [hitems] at h
        cases h
      | ok ds =>
        rw [hitems] at h
        cases h
        rw [Value.textWithin, map_eq_of_mapM_eq_ok (fun _ _ => textWithin_eq_text) hitems, Datum.text,
          Datum.texts_eq]
    | function | builtin => cases h
    | _ =>
      cases h
      rfl

/-- Every datum comes back from a run as it went in if none of its parts lies more than 64 levels below the top,
and is an error otherwise, and every value that comes back has the text of the datum that it becomes. -/
theorem plainData_crosses :
    (∀ (d : Datum) (s : State), ∃ v t, (Value.ofDatum d).run s = .ok v t ∧
      ((∀ part level, Datum.Lies part level d → level ≤ 64) → v.toDatum t.heap = .ok d) ∧
      ((∃ part level, Datum.Lies part level d ∧ 64 < level) → v.toDatum t.heap = .error .nestedTooDeeply)) ∧
    ∀ (heap : Heap) (v : Value) (d : Datum), v.toDatum heap = .ok d → v.text heap = d.text := by
  refine ⟨fun d s => ?_, fun heap v d h => textWithin_eq_text h⟩
  obtain ⟨v, t, hrun, -, hconveys⟩ := exists_ofDatum d s
  have hconveys := hconveys t.heap .rfl
  refine ⟨v, t, hrun, fun hlies => hconveys.fits maxLevels fun part level hpart => ?_, ?_⟩
  · exact Nat.lt_succ_of_le (hlies part level hpart)
  · rintro ⟨part, level, hpart, hlevel⟩
    exact hconveys.tooDeep maxLevels fun hfits => Nat.not_lt_of_le hlevel (hfits part level hpart)

/-- Lists one in another, with nothing in the innermost. -/
def Datum.nested : Nat → Datum
  | 0 => .none
  | levels + 1 => .list [nested levels]

theorem Datum.lies_nested : ∀ levels, Datum.Lies .none levels (nested levels)
  | 0 => .top
  | levels + 1 => .item (List.mem_singleton_self _) (lies_nested levels)

theorem Datum.fitsIn_nested : ∀ levels, (nested levels).FitsIn (levels + 1)
  | 0 => fitsIn_leaf (by simp [nested])
  | levels + 1 => fitsIn_list.mpr fun d hd => List.mem_singleton.mp hd ▸ fitsIn_nested levels

theorem plainData_crosses_nested :
    (∃ v t, (Value.ofDatum (.nested 64)).run {} = .ok v t ∧ v.toDatum t.heap = .ok (.nested 64) ∧
      v.text t.heap = (Datum.nested 64).text) ∧
    ∃ v t, (Value.ofDatum (.nested 65)).run {} = .ok v t ∧ v.toDatum t.heap = .error .nestedTooDeeply := by
  obtain ⟨hcrosses, htext⟩ := plainData_crosses
  obtain ⟨v, t, hrun, hfits, -⟩ := hcrosses (.nested 64) {}
  obtain ⟨v', t', hrun', -, hdeep⟩ := hcrosses (.nested 65) {}
  have hdatum := hfits fun part level hpart => Nat.le_of_lt_succ (Datum.fitsIn_nested 64 part level hpart)
  exact ⟨⟨v, t, hrun, hdatum, htext _ _ _ hdatum⟩, v', t', hrun', hdeep ⟨.none, 65, Datum.lies_nested 65, by decide⟩⟩

end ProgramBreeding

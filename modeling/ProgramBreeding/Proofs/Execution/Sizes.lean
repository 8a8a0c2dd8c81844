import Mathlib.Data.String.Basic
import ProgramBreeding.Proofs.Execution.Simulation

/-!
# The limit on lists and texts

What it means for the values and lists of a run to be within the limit, and what moving, dropping
and adding elements does to it.

## Main definitions

* `Value.InLimit`, `Items.InLimit`, `State.InLimit` — values, lists and states within the limit.
* `Text.length_trim_le`, `Text.length_words_le` — parts of a text are no longer than the text.
* `sortValues_perm` — sorting moves values only.
* `State.InLimit.push`, `State.InLimit.modify` — new lists and lists that change.

## Design notes

A list can be made of the characters of a text, so texts have to be within the limit too; what
counts is the number of their characters, which no check by bytes underestimates.  The text of any
value can be made by the built-in function `str`, so no value within the limit is that function.
-/

namespace ProgramBreeding

variable {α β : Type}

/-! ### Texts -/

theorem length_le_utf8ByteSize (text : String) : text.length ≤ text.utf8ByteSize := by
  rw [← String.ofList_toList (s := text), String.length_ofList, String.utf8ByteSize_ofList]
  induction text.toList with
  | nil => exact Nat.le_refl 0
  | cons c cs ih =>
    have hc := c.utf8Size_pos
    rw [List.length_cons, String.utf8Len_cons]
    omega

namespace Text

theorem length_trim_le (text : String) : (trim text).length ≤ text.length := by
  rw [trim, String.length_ofList, List.length_reverse, ← String.length_toList]
  calc ((text.toList.dropWhile isBlank).reverse.dropWhile isBlank).length
      ≤ (text.toList.dropWhile isBlank).reverse.length := (List.dropWhile_sublist _).length_le
    _ ≤ text.toList.length := by
      rw [List.length_reverse]
      exact (List.dropWhile_sublist _).length_le

theorem length_wordsAfter_le : ∀ (cs word : List Char) (found : List (List Char)),
    (wordsAfter word found cs).length ≤ found.length + word.length + cs.length
  | [], [], found => by simp [wordsAfter]
  | [], _ :: _, found => by simp [wordsAfter]
  | c :: rest, word, found => by
    unfold wordsAfter
    split
    · refine (length_wordsAfter_le rest [] _).trans ?_
      cases word <;> simp
      omega
    · refine (length_wordsAfter_le rest (c :: word) found).trans ?_
      simp only [List.length_cons]
      omega

theorem length_le_of_mem_wordsAfter {n : Nat} : ∀ (cs word : List Char) (found : List (List Char)),
    word.length + cs.length ≤ n → (∀ w ∈ found, w.length ≤ n) →
      ∀ w ∈ wordsAfter word found cs, w.length ≤ n
  | [], word, found, hn, hfound => by
    have hword : word.reverse.length ≤ n := by simpa using hn
    unfold wordsAfter
    intro w hw
    rw [List.mem_reverse] at hw
    split at hw
    · exact hfound w hw
    · obtain rfl | hw := List.mem_cons.mp hw
      · exact hword
      · exact hfound w hw
  | c :: rest, word, found, hn, hfound => by
    rw [List.length_cons] at hn
    unfold wordsAfter
    split
    · refine length_le_of_mem_wordsAfter rest [] _ (by simp; omega) ?_
      split
      · exact hfound
      · exact List.forall_mem_cons.mpr ⟨by rw [List.length_reverse]; omega, hfound⟩
    · exact length_le_of_mem_wordsAfter rest (c :: word) found (by simp; omega) hfound

/-- A text has no more words than characters. -/
theorem length_words_le (text : String) : (words text).length ≤ text.length := by
  simpa [words, String.length_toList] using length_wordsAfter_le text.toList [] []

theorem length_le_of_mem_words {text word : String} (h : word ∈ words text) :
    word.length ≤ text.length := by
  obtain ⟨w, hw, rfl⟩ := List.mem_map.mp h
  rw [String.length_ofList]
  exact length_le_of_mem_wordsAfter text.toList [] [] (by simp [String.length_toList]) nofun w hw

end Text

/-! ### Sorting -/

section

variable {heap : Heap}

theorem mergeValues_perm : ∀ {count : Nat} {merged left right sorted : List Value},
    mergeValues heap count merged left right = .ok sorted → sorted.Perm (merged ++ left ++ right)
  | 0, merged, left, right, sorted, h => by
    cases h
    exact ((List.reverse_perm merged).append_right left).append_right right
  | count + 1, merged, [], right, sorted, h => by
    cases h
    simpa using (List.reverse_perm merged).append_right right
  | count + 1, merged, x :: left, [], sorted, h => by
    cases h
    simpa using (List.reverse_perm merged).append_right (x :: left)
  | count + 1, merged, x :: left, y :: right, sorted, h => by
    simp only [mergeValues] at h
    cases horder : orderFor .lt heap y x with
    | error fault =>
      rw [horder] at h
      cases h
    | ok order =>
      have hright : (y :: (merged ++ x :: left) ++ right).Perm (merged ++ x :: left ++ y :: right) :=
        List.perm_middle.symm
      have hleft : (x :: (merged ++ left) ++ y :: right).Perm (merged ++ x :: left ++ y :: right) :=
        List.perm_middle.symm.append_right _
      rw [horder] at h
      cases order with
      | lt => exact (mergeValues_perm h).trans hright
      | eq => exact (mergeValues_perm h).trans hleft
      | gt => exact (mergeValues_perm h).trans hleft

theorem sortWithin_perm : ∀ {depth : Nat} {items sorted : List Value},
    sortWithin heap depth items = .ok sorted → sorted.Perm items
  | 0, items, sorted, h => by
    cases h
    exact .refl _
  | depth + 1, items, sorted, h => by
    unfold sortWithin at h
    split at h
    · cases h
      exact .refl _
    · cases hleft : sortWithin heap depth (items.take (items.length / 2)) with
      | error fault =>
        simp only [hleft] at h
        cases h
      | ok left =>
        cases hright : sortWithin heap depth (items.drop (items.length / 2)) with
        | error fault =>
          simp only [hleft, hright] at h
          cases h
        | ok right =>
          simp only [hleft, hright] at h
          have hmerge := mergeValues_perm h
          rw [List.nil_append] at hmerge
          exact (hmerge.trans ((sortWithin_perm hleft).append (sortWithin_perm hright))).trans
            (.of_eq (List.take_append_drop ..))

/-- Sorting moves values only. -/
theorem sortValues_perm {items sorted : List Value} (h : sortValues heap items = .ok sorted) :
    sorted.Perm items :=
  sortWithin_perm h

end

/-! ### Values within the limit -/

/-- A text that is not too long, or another value but the function `str`. -/
def Value.InLimit : Value → Prop
  | .str text => text.length ≤ maxSequence
  | .builtin b => b ≠ .str
  | _ => True

/-- A list that is not too long, of values within the limit. -/
structure Items.InLimit (items : List Value) : Prop where
  length : items.length ≤ maxSequence
  values : ∀ v ∈ items, v.InLimit

/-- A state in which all lists and texts are within the limit. -/
structure State.InLimit (s : State) : Prop where
  globals : ∀ entry ∈ s.globals, entry.2.InLimit
  frames : ∀ frame ∈ s.frames, ∀ entry ∈ frame, entry.2.InLimit
  items : ∀ ref, Items.InLimit (s.heap.items ref).toList

theorem Value.inLimit_character (c : Char) : (Value.str c.toString).InLimit := by
  have hone : c.toString.length = 1 := by simp [Char.toString]
  exact hone.trans_le (by decide)

theorem Value.InLimit.getD {vs : List Value} (h : ∀ v ∈ vs, v.InLimit) (n : Nat) {v : Value}
    (hv : v.InLimit) : (vs.getD n v).InLimit := by
  rw [List.getD_eq_getElem?_getD]
  cases hget : vs[n]? with
  | none => exact hv
  | some w => exact h w (List.mem_of_getElem? hget)

theorem Value.InLimit.headD {vs : List Value} (h : ∀ v ∈ vs, v.InLimit) :
    (vs.headD .none).InLimit := by
  cases vs with
  | nil => exact True.intro
  | cons v rest => exact h v List.mem_cons_self

theorem Num.toValue_inLimit (n : Num) : n.toValue.InLimit := by cases n <;> exact True.intro

namespace Items.InLimit

variable {items items' : List Value}

/-- No longer a list, with the same values or fewer. -/
theorem of_subset (h : Items.InLimit items) (hlength : items'.length ≤ items.length)
    (hsubset : items' ⊆ items) : Items.InLimit items' :=
  ⟨hlength.trans h.length, fun v hv => h.values v (hsubset hv)⟩

theorem of_perm (h : Items.InLimit items) (hperm : items'.Perm items) : Items.InLimit items' :=
  h.of_subset hperm.length_eq.le hperm.subset

theorem nil : Items.InLimit [] := ⟨Nat.zero_le _, nofun⟩

theorem append (h : Items.InLimit items) (h' : Items.InLimit items')
    (hlength : items.length + items'.length ≤ maxSequence) : Items.InLimit (items ++ items') :=
  ⟨by rwa [List.length_append], List.forall_mem_append.mpr ⟨h.values, h'.values⟩⟩

theorem set (h : Items.InLimit items) (n : Nat) {v : Value} (hv : v.InLimit) :
    Items.InLimit (items.set n v) :=
  ⟨by rw [List.length_set]; exact h.length, fun w hw => by
    obtain hw | rfl := List.mem_or_eq_of_mem_set hw
    · exact h.values w hw
    · exact hv⟩

/-- The characters of a text. -/
theorem characters {text : String} (h : text.length ≤ maxSequence) :
    Items.InLimit (text.toList.map fun c => Value.str c.toString) := by
  refine ⟨by rwa [List.length_map, String.length_toList], ?_⟩
  intro v hv
  obtain ⟨c, -, rfl⟩ := List.mem_map.mp hv
  exact Value.inLimit_character c

end Items.InLimit

/-! ### States within the limit -/

namespace State.InLimit

variable {s : State}

/-- Only variables and lists count. -/
theorem of_eq {t : State} (h : s.InLimit) (hglobals : t.globals = s.globals)
    (hframes : t.frames = s.frames) (hheap : t.heap = s.heap) : t.InLimit where
  globals := hglobals ▸ h.globals
  frames := hframes ▸ h.frames
  items := hheap ▸ h.items

theorem start : State.InLimit {} := ⟨nofun, nofun, fun _ => .nil⟩

theorem push (h : s.InLimit) {items : Array Value} (hitems : Items.InLimit items.toList) :
    State.InLimit { s with heap := s.heap.push items } where
  globals := h.globals
  frames := h.frames
  items ref := by
    rw [Heap.items_push]
    split
    · exact hitems
    · exact h.items ref

theorem modify (h : s.InLimit) {ref : Ref} {f : Array Value → Array Value}
    (hf : Items.InLimit (f (s.heap.items ref)).toList) :
    State.InLimit { s with heap := s.heap.modify ref f } where
  globals := h.globals
  frames := h.frames
  items q := by
    rw [Heap.items_modify]
    split
    · exact hf
    · exact h.items q

theorem get? {scope : Scope} (h : ∀ entry ∈ scope, entry.2.InLimit) {name : String} {v : Value}
    (hget : scope.get? name = some v) : v.InLimit := by
  induction scope with
  | nil => cases hget
  | cons entry rest ih =>
    rw [Scope.get?_cons] at hget
    split at hget
    · cases hget
      exact h entry List.mem_cons_self
    · exact ih (fun e he => h e (List.mem_cons_of_mem _ he)) hget

theorem insert (name : String) {v : Value} (hv : v.InLimit) : ∀ scope : Scope,
    (∀ entry ∈ scope, entry.2.InLimit) → ∀ entry ∈ scope.insert name v, entry.2.InLimit
  | [], _ => List.forall_mem_singleton.mpr hv
  | entry :: rest, h => by
    obtain ⟨hentry, hrest⟩ := List.forall_mem_cons.mp h
    unfold Scope.insert
    split
    · exact List.forall_mem_cons.mpr ⟨hv, hrest⟩
    · exact List.forall_mem_cons.mpr ⟨hentry, insert name hv rest hrest⟩

theorem erase {scope : Scope} (h : ∀ entry ∈ scope, entry.2.InLimit) (name : String) :
    ∀ entry ∈ scope.erase name, entry.2.InLimit :=
  fun entry hentry => h entry (List.mem_of_mem_filter hentry)

theorem scope (h : s.InLimit) : ∀ entry ∈ s.scope, entry.2.InLimit := by
  unfold State.scope
  cases hframes : s.frames with
  | nil => exact h.globals
  | cons frame rest => exact h.frames frame (by simp [hframes])

theorem updateScope (h : s.InLimit) {f : Scope → Scope}
    (hf : ∀ scope : Scope, (∀ entry ∈ scope, entry.2.InLimit) → ∀ entry ∈ f scope, entry.2.InLimit) :
    (s.updateScope f).InLimit := by
  unfold State.updateScope
  split
  · exact ⟨hf _ h.globals, h.frames, h.items⟩
  · rename_i frame frames hframes
    have hall := hframes ▸ h.frames
    obtain ⟨hframe, hrest⟩ := List.forall_mem_cons.mp hall
    exact ⟨h.globals, List.forall_mem_cons.mpr ⟨hf frame hframe, hrest⟩, h.items⟩

theorem restore (h : s.InLimit) (name : String) {before : Option Value}
    (hbefore : ∀ v, before = some v → v.InLimit) : (s.restore name before).InLimit := by
  refine h.updateScope fun scope hscope => ?_
  cases before with
  | none => exact erase hscope name
  | some v => exact insert name (hbefore v rfl) scope hscope

theorem leaveFrame (h : s.InLimit) : s.leaveFrame.InLimit :=
  ⟨h.globals, fun frame hframe => h.frames frame (List.mem_of_mem_tail hframe), h.items⟩

/-- The value of a name, unless the name may denote `str`. -/
theorem lookup (h : s.InLimit) {name : String} (hname : name ≠ "str") {v : Value}
    (hv : s.lookup name = some v) : v.InLimit := by
  unfold State.lookup at hv
  obtain hv | ⟨-, hv⟩ := Option.or_eq_some_iff.mp hv
  · obtain hv | ⟨-, hv⟩ := Option.or_eq_some_iff.mp hv
    · obtain ⟨frame, hframe, hv⟩ := Option.bind_eq_some_iff.mp hv
      exact get? (h.frames frame (List.mem_of_head? hframe)) hv
    · exact get? h.globals hv
  · -- A built-in function is known by its own name only.
    obtain ⟨builtin, hbuiltin, rfl⟩ := Option.map_eq_some_iff.mp hv
    rintro rfl
    have hfound := List.find?_some hbuiltin
    exact hname (beq_iff_eq.mp hfound).symm

end State.InLimit

end ProgramBreeding

import ProgramBreeding.Proofs.Execution.Assumption

/-!
# Steps that one of two runs takes alone

A list that only the first run has, and variables that come to differ.

## Main definitions

* `Pairing.keep` — a list that only the first run has.
* `State.Agree.hide`, `State.Agree.putLeft`, `State.Agree.putRight` — variables that come to differ.
* `Assumption.bound` — what a variable holds in the first run.
* `Alike.newListLeft`, `Assumption.bindLeft`, `Assumption.getLeft` — steps of the first run.

## Design notes

A list that is being built up has no partner, so no value that agrees with another one leads to it, and the
pairing says what it holds.
-/

namespace ProgramBreeding

variable {S : Setting} {V : View} {P Q : Pairing} {c c' d : Nat} {α β γ δ : Type}

/-! ### Lists without partners -/

/-- A list that only the first run has. -/
def Pairing.keep (P : Pairing) (ρ : Ref) (items : Array Value) : Pairing where
  rel := P.rel
  unique := P.unique
  kept r := if r = ρ then some items else P.kept r

section

variable {L : Labelling} {heap heap' : Heap} {items items' : Array Value} {ρ : Ref} {v v' : Value}
  {vs vs' : List Value}

theorem Pairing.keep_self : (P.keep ρ items).kept ρ = some items := if_pos rfl

theorem Pairing.rel_pair {n n' : Ref} {hfree} (r r' : Ref) (h : P.rel r r') : (P.pair n n' hfree).rel r r' := .inl h

theorem Pairing.rel_keep (r r' : Ref) (h : P.rel r r') : (P.keep ρ items).rel r r' := h

theorem Pairing.le_keep (h : P ≤ Q) (hfree : P.kept ρ = none) : P ≤ Q.keep ρ items := by
  refine ⟨h.1, fun r items' hr => ?_⟩
  show (if r = ρ then some items else Q.kept r) = some items'
  rw [if_neg]
  · exact h.2 r items' hr
  · rintro rfl
    exact nomatch hfree.symm.trans hr

/-- A new list of the first run. -/
theorem Heap.Agree.pushLeft (h : heap.Agree L P heap') (items : Array Value) :
    Heap.Agree L (P.keep heap.size items) (heap.push items) heap' where
  lt hr := ⟨by rw [Array.size_push]; exact Nat.lt_succ_of_lt (h.lt hr).1, (h.lt hr).2⟩
  items {r r'} hr := by
    rw [Heap.items_push, if_neg (h.fresh hr).1]
    exact (h.items hr).grow Pairing.rel_keep
  kept {r items'} hr := by
    have hr' : (if r = heap.size then some items else P.kept r) = some items' := hr
    rw [Array.size_push, Heap.items_push]
    split at hr'
    · rename_i heq
      cases hr'
      refine ⟨heq ▸ Nat.lt_succ_self _, if_pos heq, fun r' hrel => ?_⟩
      exact Nat.lt_irrefl _ (heq ▸ (h.lt hrel).1)
    · rename_i hne
      obtain ⟨hlt, hitems, hfree⟩ := h.kept hr'
      exact ⟨Nat.lt_succ_of_lt hlt, by rw [if_neg hne, hitems], hfree⟩

/-- A list that only the first run has changes. -/
theorem Heap.Agree.modifyLeft (h : heap.Agree L P heap') (hkept : P.kept ρ = some items)
    (f : Array Value → Array Value) : Heap.Agree L (P.keep ρ (f items)) (heap.modify ρ f) heap' where
  lt hr := by
    rw [Array.size_modify]
    exact h.lt hr
  items {r r'} hr := by
    rw [Heap.items_modify, if_neg]
    · exact (h.items hr).grow Pairing.rel_keep
    · rintro ⟨rfl, -⟩
      exact (h.kept hkept).2.2 _ hr
  kept {r items'} hr := by
    have hr' : (if r = ρ then some (f items) else P.kept r) = some items' := hr
    rw [Array.size_modify, Heap.items_modify]
    split at hr'
    · rename_i heq
      cases hr'
      obtain ⟨hlt, hitems, hfree⟩ := h.kept hkept
      exact ⟨heq ▸ hlt, by rw [if_pos ⟨heq, hlt⟩, hitems], heq ▸ hfree⟩
    · rename_i hne
      obtain ⟨hlt, hitems, hfree⟩ := h.kept hr'
      exact ⟨hlt, by rw [if_neg fun hand => hne hand.1, hitems], hfree⟩

/-- A new list of the second run. -/
theorem Heap.Agree.pushRight (h : heap.Agree L P heap') (items' : Array Value) :
    Heap.Agree L P heap (heap'.push items') where
  lt hr := ⟨(h.lt hr).1, by rw [Array.size_push]; exact Nat.lt_succ_of_lt (h.lt hr).2⟩
  items {r r'} hr := by
    rw [Heap.items_push, if_neg (h.fresh hr).2]
    exact h.items hr
  kept := h.kept

/-- A list that only the first run had gets a new list of the second run as its partner. -/
theorem Heap.Agree.pushPartner (h : heap.Agree L P heap') (hkept : P.kept ρ = some items) (items' : Array Value)
    (hitems : Values.Agree L P items.toList items'.toList) :
    ∃ hfree, Heap.Agree L (P.pair ρ heap'.size hfree) heap (heap'.push items') := by
  obtain ⟨hlt, hheap, hunpaired⟩ := h.kept hkept
  have hfree : ∀ r r', P.rel r r' → r ≠ ρ ∧ r' ≠ heap'.size := by
    intro r r' hr
    refine ⟨?_, (h.fresh hr).2⟩
    rintro rfl
    exact hunpaired _ hr
  refine ⟨hfree, ?_, ?_, ?_⟩
  · rintro r r' (hr | ⟨rfl, rfl⟩)
    · exact ⟨(h.lt hr).1, by rw [Array.size_push]; exact Nat.lt_succ_of_lt (h.lt hr).2⟩
    · exact ⟨hlt, by rw [Array.size_push]; exact Nat.lt_succ_self _⟩
  · rintro r r' (hr | ⟨rfl, rfl⟩)
    · rw [Heap.items_push, if_neg (hfree _ _ hr).2]
      exact (h.items hr).grow Pairing.rel_pair
    · rw [Heap.items_push, if_pos rfl, hheap]
      exact hitems.grow Pairing.rel_pair
  · intro r kept hr
    obtain ⟨hne, hr⟩ : r ≠ ρ ∧ P.kept r = some kept := by simpa [Pairing.pair] using hr
    obtain ⟨hlt, hitems, hunpaired⟩ := h.kept hr
    refine ⟨hlt, hitems, ?_⟩
    rintro r' (hr' | ⟨rfl, -⟩)
    · exact hunpaired _ hr'
    · exact hne rfl

/-- A list that had no partner before gets one. -/
theorem Pairing.le_pair_of_le {n n' : Ref} (h : P ≤ Q) (hkept : P.kept n = none) (hfree) : P ≤ Q.pair n n' hfree := by
  refine ⟨fun r r' hr => .inl (h.1 r r' hr), fun r items hr => ?_⟩
  show (if r = n then none else Q.kept r) = some items
  rw [if_neg]
  · exact h.2 r items hr
  · rintro rfl
    exact nomatch hkept.symm.trans hr

end

/-! ### Variables that come to differ -/

@[simp] theorem View.top_withTop (V : View) (hidden : String → Prop) : (V.withTop hidden).top = hidden := by
  obtain ⟨globals, frames⟩ := V
  cases frames <;> rfl

@[simp] theorem View.withTop_withTop (V : View) (hidden hidden' : String → Prop) :
    (V.withTop hidden).withTop hidden' = V.withTop hidden' := by
  obtain ⟨globals, frames⟩ := V
  cases frames <;> rfl

section

variable {s s' t : State} {hidden : String → Prop} {x : String} {v : Value}

theorem State.updateScope_id (s : State) : s.updateScope id = s := by
  unfold State.updateScope
  split
  · rfl
  · rename_i hframes
    rw [id, ← hframes]

/-- More variables may differ. -/
theorem Scope.Agree.hide {shown : String → Prop} {scope scope' : Scope} (h : scope.Agree S P shown scope')
    (hle : ∀ x, shown x → hidden x) : scope.Agree S P hidden scope' :=
  { h with values := fun x hx => h.values x fun hshown => hx (hle x hshown) }

/-- More variables of the open scope may differ. -/
theorem State.Agree.hide (h : s.Agree S V P c s') (hidden : String → Prop) (hle : ∀ x, V.top x → hidden x) :
    s.Agree S (V.withTop hidden) P c s' := by
  have hhide : (s.updateScope id).Agree S (V.withTop hidden) P c (s'.updateScope id) :=
    h.changeScope (h.scope.hide hle)
  rwa [s.updateScope_id, s'.updateScope_id] at hhide

/-- In the first run, a variable that may differ changes. -/
theorem Scope.Agree.putLeft {scope scope' : Scope} (h : scope.Agree S P hidden scope') (hx : hidden x)
    (hname : S.names x) (found : Option Value) : (scope.put x found).Agree S P hidden scope' where
  values y hy := by
    rw [Scope.get?_put, if_neg]
    · exact h.values y hy
    · rintro rfl
      exact hy hx
  names y := by
    rw [Scope.get?_put]
    split
    · rename_i heq
      exact fun _ => heq ▸ hname
    · exact h.names y
  names' := h.names'

/-- In the second run, a variable changes and may differ then, or is given the value that it has in the first. -/
theorem Scope.Agree.putRight {shown : String → Prop} {scope scope' : Scope} (h : scope.Agree S P hidden scope')
    (hname : S.names x) (found : Option Value) (hle : ∀ y, hidden y → y = x ∨ shown y)
    (hfound : ¬ shown x → Option.Rel (Value.Agree S.labels P) (scope.get? x) found) :
    scope.Agree S P shown (scope'.put x found) where
  values y hy := by
    rw [Scope.get?_put]
    split
    · rename_i heq
      exact heq ▸ hfound (heq ▸ hy)
    · rename_i hne
      exact h.values y fun hhidden => (hle y hhidden).elim hne hy
  names := h.names
  names' y := by
    rw [Scope.get?_put]
    split
    · rename_i heq
      exact fun _ => heq ▸ hname
    · exact h.names' y

theorem State.Agree.putLeft (h : s.Agree S V P c s') (hx : V.top x) (hname : S.names x) (found : Option Value) :
    (s.updateScope fun scope => scope.put x found).Agree S V P c s' := by
  have hput : (s.updateScope fun scope => scope.put x found).Agree S (V.withTop V.top) P c (s'.updateScope id) :=
    h.changeScope (h.scope.putLeft hx hname found)
  rwa [s'.updateScope_id, View.withTop_top] at hput

theorem State.Agree.putRight (h : s.Agree S V P c s') (hname : S.names x) (found : Option Value)
    (hidden : String → Prop) (hle : ∀ y, V.top y → y = x ∨ hidden y)
    (hfound : ¬ hidden x → Option.Rel (Value.Agree S.labels P) (s.scope.get? x) found) :
    s.Agree S (V.withTop hidden) P c (s'.updateScope fun scope => scope.put x found) := by
  have hput : (s.updateScope id).Agree S (V.withTop hidden) P c (s'.updateScope fun scope => scope.put x found) :=
    h.changeScope (h.scope.putRight hname found hle hfound)
  rwa [s.updateScope_id] at hput

theorem State.scope_updateScope (f : Scope → Scope) (s : State) : (s.updateScope f).scope = f s.scope := by
  unfold State.updateScope State.scope
  cases s.frames <;> rfl

/-- A variable of the open scope hides all others of its name. -/
theorem State.lookup_of_scope (h : s.scope.get? x = some v) : s.lookup x = some v := by
  unfold State.lookup
  unfold State.scope at h
  cases hframes : s.frames with
  | nil =>
    rw [hframes] at h
    simp [show s.globals.get? x = some v from h]
  | cons frame rest =>
    rw [hframes] at h
    simp [show frame.get? x = some v from h]

theorem State.SameButMeter.scope_eq (h : s.SameButMeter t) : t.scope = s.scope := by
  unfold State.SameButMeter at h
  rw [h]
  rfl

theorem State.SameBindings.get?_scope (h : s.SameBindings t) (x : String) :
    t.scope.get? x = s.scope.get? x := by
  obtain ⟨hglobals, hframes⟩ := h
  unfold State.scope
  generalize s.frames = frames, t.frames = frames' at hframes
  cases hframes with
  | nil => exact hglobals x
  | cons hframe _ => exact hframe x

end

/-! ### What a variable holds meanwhile -/

/-- What a variable of the open scope holds in the first run. -/
def Assumption.bound (x : String) (v : Value) : Assumption where
  holds _ s _ := s.scope.get? x = some v
  mono _ := id
  meter h _ hs := by rw [h.scope_eq, hs]

/-- Both are known. -/
def Assumption.and (F G : Assumption) : Assumption where
  holds P s s' := F.holds P s s' ∧ G.holds P s s'
  mono hle h := ⟨F.mono hle h.1, G.mono hle h.2⟩
  meter hs hs' h := ⟨F.meter hs hs' h.1, G.meter hs hs' h.2⟩

section

variable {F : Assumption} {m : Exec α} {m' : Exec β} {n : Exec γ} {n' : Exec δ} {x : String} {u v : Value}
  {hidden : String → Prop} {post : γ → δ → State → State → Prop}

/-- An expression binds nothing. -/
theorem Assumption.bound_survives (h : Leads State.SameBindings m) : (Assumption.bound x v).Survives m m' := by
  intro P s s' a a' t t' hs hrun _
  have hsame := h s
  rw [hrun] at hsame
  exact (hsame.get?_scope x).trans hs

/-- The first run makes a list that the second does without. -/
theorem Alike.newListLeft {items : Array Value} {f : Value → Exec γ}
    (h : ∀ ρ Q, P ≤ Q → P.kept ρ = none → Q.kept ρ = some items →
      Alike S (State.Agree S V Q c) post (f (.list ρ)) n') :
    Alike S (State.Agree S V P c) post (newList items >>= f) n' := by
  intro s s' hagree
  have hfree := hagree.heap.kept_size
  have hle : P ≤ P.keep s.heap.size items := Pairing.le_keep le_rfl hfree
  exact h s.heap.size _ hle hfree Pairing.keep_self { s with heap := s.heap.push items } s'
    (hagree.changeHeap hle.1 (hagree.heap.pushLeft items))

/-- The second run makes a list that the first does without, and looks at it. -/
theorem Alike.iterateNewRight {pre : State → State → Prop} {items : Array Value} {f : Array Value → Exec δ}
    (hpre : ∀ s s', pre s s' → pre s { s' with heap := s'.heap.push items }) (h : Alike S pre post n (f items)) :
    Alike S pre post n (do f (← iterate (← newList items))) := by
  intro s s' hs
  have hrun : (newList items >>= iterate).run s' = .ok items { s' with heap := s'.heap.push items } := by
    have hitems : (itemsOf s'.heap.size).run { s' with heap := s'.heap.push items } =
        .ok (Heap.items (s'.heap.push items) s'.heap.size) { s' with heap := s'.heap.push items } := rfl
    rw [Heap.items_push, if_pos rfl] at hitems
    exact hitems
  rw [← bind_assoc, run_bind_ok hrun]
  exact h s _ (hpre s s' hs)

/-- A name that no variable has. -/
theorem State.Agree.lookup_right {s s' : State} (h : s.Agree S V P c s') (hname : ¬ S.names x) :
    s'.lookup x = (Builtin.ofName? x).map .builtin := by
  have hnone {hidden : String → Prop} {scope scope' : Scope} (hscope : scope.Agree S P hidden scope') :
      scope'.get? x = none := by
    by_contra hne
    exact hname (hscope.names' x hne)
  have hframe : (s'.frames.head?.bind fun frame => frame.get? x) = none := by
    have hframes := h.frames
    generalize s.frames = frames, s'.frames = frames', V.frames = rest at hframes
    cases hframes with
    | nil => rfl
    | cons hframe _ => exact hnone hframe
  rw [State.lookup, hframe, hnone h.globals]
  rfl

/-- The second run reads the name of a built-in function that no variable has. -/
theorem Alike.builtinRight {b : Builtin} {f : Value → Exec δ} (hname : ¬ S.names x) (hb : Builtin.ofName? x = some b)
    (h : Alike S (State.Agree S V P c) post n (f (.builtin b))) :
    Alike S (State.Agree S V P c) post n (getVar x >>= f) := by
  intro s s' hagree
  have hrun : (getVar x).run s' = .ok (.builtin b) s' := by
    unfold getVar
    rw [run_bind_ok (show (get : Exec State).run s' = .ok s' s' from rfl), hagree.lookup_right hname, hb]
    rfl
  rw [run_bind_ok hrun]
  exact h s s' hagree

namespace Assumption

section

variable {ρ : Ref} {items : Array Value}

/-- The first run looks at a list that the second does without. -/
theorem itemsLeft {f : Array Value → Exec γ} (hkept : P.kept ρ = some items)
    (h : Alike S ((bound x v).Within S V P c) post (f items) n') :
    Alike S ((bound x v).Within S V P c) post (itemsOf ρ >>= f) n' := by
  intro s s' hwithin
  have hrun : (itemsOf ρ).run s = .ok items s := by
    rw [← (hwithin.1.heap.kept hkept).2.1]
    rfl
  rw [run_bind_ok hrun]
  exact h s s' hwithin

/-- The first run changes a list that the second does without. -/
theorem updateLeft {f : Array Value → Array Value} (hkept : P.kept ρ = some items)
    (h : Alike S ((bound x v).Within S V (P.keep ρ (f items)) c) post n n') :
    Alike S ((bound x v).Within S V P c) post (do updateList ρ f; n) n' := by
  rintro s s' ⟨hagree, hbound⟩
  have hagree' := hagree.changeHeap Pairing.rel_keep (hagree.heap.modifyLeft hkept f)
  exact h { s with heap := s.heap.modify ρ f } s' ⟨hagree', hbound⟩

end

/-- The first run gives the variable a value. -/
theorem bindLeft (hidden : String → Prop) (hname : S.names x) (hx : hidden x) (hle : ∀ y, V.top y → hidden y)
    (h : Alike S ((bound x v).Within S (V.withTop hidden) P c) post n n') :
    Alike S (State.Agree S V P c) post (do setVar x v; n) n' := by
  intro s s' hagree
  have hput := (hagree.hide hidden hle).putLeft (by rwa [View.top_withTop]) hname (some v)
  refine h (s.updateScope fun scope => scope.put x (some v)) s' ⟨hput, ?_⟩
  show Scope.get? (State.scope _) x = some v
  rw [State.scope_updateScope, Scope.get?_put, if_pos rfl]

/-- The first run gives the variable another value. -/
theorem rebindLeft (hname : S.names x) (hx : V.top x)
    (h : Alike S ((bound x v).Within S V P c) post n n') :
    Alike S ((bound x u).Within S V P c) post (do setVar x v; n) n' := by
  have hbind : Alike S (State.Agree S V P c) post (do setVar x v; n) n' := by
    refine bindLeft V.top hname hx (fun _ => id) ?_
    rwa [View.withTop_top]
  exact hbind.weaken fun _ _ hwithin => hwithin.1

/-- The first run reads a variable. -/
theorem getLeft {f : Value → Exec γ} (hF : ∀ P s s', F.holds P s s' → s.scope.get? x = some v)
    (h : Alike S (F.Within S V P c) post (f v) n') : Alike S (F.Within S V P c) post (getVar x >>= f) n' := by
  intro s s' hwithin
  have hrun : (getVar x).run s = .ok v s := by
    unfold getVar
    rw [run_bind_ok (show (get : Exec State).run s = .ok s s from rfl), State.lookup_of_scope (hF _ _ _ hwithin.2)]
    rfl
  rw [run_bind_ok hrun]
  exact h s s' hwithin

/-- The first run gives another variable a value. -/
theorem setLeft {y : String} (hname : S.names y) (hy : V.top y) (hne : x ≠ y) (w : Value)
    (h : Alike S (((bound x v).and (bound y w)).Within S V P c) post n n') :
    Alike S ((bound x v).Within S V P c) post (do setVar y w; n) n' := by
  rintro s s' ⟨hagree, hbound⟩
  refine h (s.updateScope fun scope => scope.put y (some w)) s' ⟨hagree.putLeft hy hname _, ?_, ?_⟩
  · show Scope.get? (State.scope _) x = some v
    rw [State.scope_updateScope, Scope.get?_put, if_neg hne]
    exact hbound
  · show Scope.get? (State.scope _) y = some w
    rw [State.scope_updateScope, Scope.get?_put, if_pos rfl]

/-- The first run pays for something that the second does without. -/
theorem wasteLeft (units : UInt64) (h : Alike S (F.Within S V P c) post n n') :
    Alike S (F.Within S V P c) post (do charge S.budget units; n) n' :=
  F.payLeft units (F.spare (Nat.le_add_right ..) h)

/-- The first run pays for something, and the second saves a unit of what it has for that. -/
theorem saveLeft (h : Alike S (F.Within S V P (c + 1)) post n n') :
    Alike S (F.Within S V P c) post (do charge S.budget 1; n) n' :=
  F.payLeft 1 (F.spare (Nat.add_le_add_left (Nat.le_mul_of_pos_left _ (Nat.add_pos_left Nat.one_pos _)) _) h)

/-- Both runs give another variable a value, which may have differed so far. -/
theorem setBoth (hidden : String → Prop) {y : String} {w w' : Value} (hname : S.names y) (hne : x ≠ y)
    (hw : w.Agree S.labels P w') (hle : ∀ z, V.top z → z = y ∨ hidden z)
    (h : Alike S ((bound x v).Within S (V.withTop hidden) P c) post n n') :
    Alike S ((bound x v).Within S V P c) post (do setVar y w; n) (do setVar y w'; n') := by
  rintro s s' ⟨hagree, hbound⟩
  refine h (s.updateScope (Scope.insert y w)) (s'.updateScope (Scope.insert y w')) ⟨?_, ?_⟩
  · exact hagree.changeScope (hagree.scope.reveal y hle (fun _ => .some hw) (fun _ => hname) fun _ => hname)
  · show Scope.get? (State.scope _) x = some v
    rw [State.scope_updateScope, Scope.get?_insert, if_neg hne]
    exact hbound

end Assumption

end

end ProgramBreeding

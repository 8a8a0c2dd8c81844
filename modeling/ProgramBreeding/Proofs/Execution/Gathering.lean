import ProgramBreeding.Proofs.Execution.OneSided

/-!
# A loop beside a comprehension

A loop that adds to a result in every round, and a comprehension that collects the elements first.

## Main definitions

* `consider`, `collect_cons` — a round of a comprehension.
* `guardedBy` — the body of a loop under a condition.
* `Alike.shieldingRight` — a variable that the second run alone keeps to itself.
* `Alike.forRounds_collect`, `Alike.forRounds_left` — rounds of a loop, beside a comprehension or alone.
* `Gathered`, `Alike.gather` — a loop whose result follows the elements that a comprehension collects.
* `Alike.settleRight` — the end, where the second run has the result as well.

## Design notes

While the loop runs, its result is in a variable that may differ, so what is known of it is an assumption about
the first run: how it follows from the elements that the second run has collected so far, the last one first.
-/

namespace ProgramBreeding

variable {S : Setting} {V : View} {P Q : Pairing} {c c' d : Nat} {α β γ δ : Type}

/-! ### Rounds -/

/-- The element for an item, if it is wanted. -/
def elementIf (element : Exec Value) (wanted : Bool) : Exec (Option Value) :=
  if wanted then do return some (← element) else return none

/-- The element that a comprehension takes for an item, if it takes one. -/
def consider (cond : Option (Exec Value)) (element : Exec Value) : Exec (Option Value) :=
  cond.elim (elementIf element true) fun test => do elementIf element (← truth (← test))

/-- A round of a comprehension. -/
theorem collect_cons (budget : Budget) (x : String) (cond : Option (Exec Value)) (element : Exec Value)
    (found rest : List Value) (item : Value) : collect budget x cond element found (item :: rest) = (do
      charge budget 1
      setVar x item
      let new ← consider cond element
      collect budget x cond element (new.toList ++ found) rest) := by
  have hrest (wanted : Bool) : (if wanted then do
        let v ← element
        collect budget x cond element (v :: found) rest
      else collect budget x cond element found rest) = (do
      let new ← elementIf element wanted
      collect budget x cond element (new.toList ++ found) rest) := by
    cases wanted with
    | false => exact (pure_bind _ _).symm
    | true => simp only [elementIf, if_true, bind_assoc, pure_bind, Option.toList_some, List.singleton_append]
  rw [collect]
  cases cond with
  | none => simp only [pure_bind, consider, Option.elim_none, hrest]
  | some test => simp only [consider, Option.elim_some, hrest, bind_assoc]

/-- The body of a loop, which may stand under a condition. -/
def guardedBy (budget : Budget) (cond : Option (Exec Value)) (inner : Exec Flow) : Exec Flow :=
  cond.elim inner fun test => do
    charge budget 1
    if ← truth (← test) then inner else return .next

section

variable {pre pre' : State → State → Prop} {post post' : α → β → State → State → Prop} {m : Exec α} {m' : Exec β}

/-- The second run makes something of its result. -/
theorem Alike.mapRight {post'' : α → γ → State → State → Prop} (f : β → γ) (h : Alike S pre post m m')
    (hpost : ∀ a b s s', post a b s s' → post'' a (f b) s s') : Alike S pre post'' m (do return f (← m')) := by
  have hboth : Alike S pre post'' (m >>= pure) (m' >>= fun b => pure (f b)) :=
    h.bind fun a b => .pure fun s s' hs => hpost a b s s' hs
  rwa [bind_pure] at hboth

/-- The second run alone keeps a variable to itself. -/
theorem Alike.shieldingRight (x : String) (h : Alike S pre post m m')
    (hpre : ∀ s s', pre' s s' → pre s (s'.updateScope fun scope => scope.put x none))
    (hpost : ∀ a a' s s' found, post a a' s s' → post' a a' s (s'.updateScope fun scope => scope.put x found)) :
    Alike S pre' post' m (shielding x m') := by
  intro s s' hs
  rw [shielding_run]
  have hends := (h s _ (hpre s s' hs)).endIn (f := id) (fun a a' t t' => hpost a a' t t' (s'.scope.get? x))
    (fun _ => ⟨rfl, rfl⟩) fun t => ⟨t.updateScope_output _, t.updateScope_used _⟩
  have hid : endIn id (m.run s) = m.run s := by
    cases m.run s <;> rfl
  rwa [hid] at hends

end

section

variable {F : Assumption} {post : Flow → Option Value → State → State → Prop} {cond cond' : Option (Exec Value)}
  {inner : Exec Flow} {element' : Exec Value}

/-- The body of a loop under a condition, and an item under the same condition. -/
theorem Alike.guarded
    (hcond : Option.Rel (fun test test' => ∀ P c, SimUnder F S V P c c (Value.Agree S.labels) test test') cond cond')
    (hinner : ∀ Q, P ≤ Q → Alike S (F.Within S V Q c) post inner (elementIf element' true))
    (hskip : ∀ Q, P ≤ Q → ∀ s s', F.Within S V Q c s s' → post .next none s s') :
    Alike S (F.Within S V P c) post (guardedBy S.budget cond inner) (consider cond' element') := by
  cases hcond with
  | none => exact hinner P le_rfl
  | some htest =>
    refine F.wasteLeft 1 ((htest P c).andThen fun Q hle v v' hv => ?_)
    have hinspects (v : Value) : Inspects (truth v) := .bind .get fun _ => .pure _
    refine (Step.truth hv).under (F.survives_of_inspects (hinspects v) (hinspects v')) fun b b' hb => ?_
    rw [← hb]
    cases b with
    | true => exact hinner Q hle
    | false => exact .pure (hskip Q hle)

end

section

variable {holds : List Value → State → State → Prop} {x : String} {body : Exec Flow} {cond' : Option (Exec Value)}
  {element' : Exec Value} {items items' : List Value}

/-- By induction on the items: what holds of the values that the comprehension has found goes on to hold. -/
theorem Alike.forRounds_collect
    (hround : ∀ found item item', item.Agree S.labels P item' →
      Alike S (holds found) (fun flow new s s' => flow = .next ∧ holds (new.toList ++ found) s s')
        (do charge S.budget 1; setVar x item; body)
        (do charge S.budget' 1; setVar x item'; consider cond' element'))
    (hitems : Values.Agree S.labels P items items') (found : List Value) :
    Alike S (holds found) (fun flow vs s s' => flow = .next ∧ ∃ found', vs = List.reverse found' ∧ holds found' s s')
      (forRounds S.budget x body items) (collect S.budget' x cond' element' found items') := by
  induction hitems generalizing found with
  | nil => exact .pure fun s s' hs => ⟨rfl, found, rfl, hs⟩
  | cons hitem _ ih =>
    rw [forRounds, collect_cons]
    have hboth := hround found _ _ hitem
    simp only [← bind_assoc] at hboth ⊢
    refine hboth.bind fun flow new => ?_
    rintro s s' ⟨rfl, hs⟩
    exact ih _ s s' hs

/-- The rounds of the first run alone. -/
theorem Alike.forRounds_left
    (hround : ∀ found item item', item.Agree S.labels P item' →
      Alike S (holds found) (fun flow _ s s' => flow = .next ∧ holds (item' :: found) s s')
        (do charge S.budget 1; setVar x item; body) (pure ()))
    (hitems : Values.Agree S.labels P items items') (found : List Value) :
    Alike S (holds found) (fun flow _ s s' => flow = .next ∧ holds (items'.reverse ++ found) s s')
      (forRounds S.budget x body items) (pure ()) := by
  induction hitems generalizing found with
  | nil => exact .pure fun s s' hs => ⟨rfl, hs⟩
  | cons hitem _ ih =>
    rw [forRounds]
    have hleft := hround found _ _ hitem
    rw [List.reverse_cons, List.append_assoc]
    simp only [← bind_assoc] at hleft ⊢
    refine Alike.left hleft fun flow => ?_
    rintro s s' ⟨rfl, hs⟩
    exact ih _ s s' hs

end

/-! ### A result that follows what is found -/

/-- In the first run, a variable holds what has come of the values that the second run has found, the last one
first, and the second run has saved a unit for each of them. -/
def Gathered (S : Setting) (V : View) (P : Pairing) (holds : List Value → Pairing → Value → Prop) (result : String)
    (c : Nat) (found : List Value) (s s' : State) : Prop :=
  ∃ Q v, P ≤ Q ∧ holds found Q v ∧ (Assumption.bound result v).Within S V Q (c + found.length) s s'

section

variable {holds : List Value → Pairing → Value → Prop} {result x : String} {found items items' : List Value}
  {cond cond' : Option (Exec Value)} {inner : Exec Flow} {element' : Exec Value}

theorem Gathered.hide {s s' : State} (h : Gathered S V P holds result c found s s') (hidden : String → Prop)
    (hle : ∀ x, V.top x → hidden x) : Gathered S (V.withTop hidden) P holds result c found s s' := by
  obtain ⟨Q, v, hPQ, hv, hagree, hbound⟩ := h
  exact ⟨Q, v, hPQ, hv, hagree.hide hidden hle, hbound⟩

theorem Gathered.putRight {s s' : State} (h : Gathered S V P holds result c found s s') (hname : S.names x)
    (hx : V.top x) (value : Option Value) :
    Gathered S V P holds result c found s (s'.updateScope fun scope => scope.put x value) := by
  obtain ⟨Q, v, hPQ, hv, hagree, hbound⟩ := h
  have hput := hagree.putRight hname value V.top (fun _ => .inr) (absurd hx)
  rw [View.withTop_top] at hput
  exact ⟨Q, v, hPQ, hv, hput, hbound⟩

theorem Gathered.pushRight {s s' : State} (h : Gathered S V P holds result c found s s') (items : Array Value) :
    Gathered S V P holds result c found s { s' with heap := s'.heap.push items } := by
  obtain ⟨Q, v, hPQ, hv, hagree, hbound⟩ := h
  exact ⟨Q, v, hPQ, hv, hagree.changeHeap (fun _ _ => id) (hagree.heap.pushRight items), hbound⟩

/-- Whatever the variable holds. -/
theorem Alike.ofGathered {m : Exec α} {m' : Exec β} {post : α → β → State → State → Prop}
    (h : ∀ Q v, P ≤ Q → holds found Q v →
      Alike S ((Assumption.bound result v).Within S V Q (c + found.length)) post m m') :
    Alike S (Gathered S V P holds result c found) post m m' :=
  fun s s' ⟨Q, v, hle, hv, hwithin⟩ => h Q v hle hv s s' hwithin

/-- While its variable may differ, a round starts. -/
theorem Gathered.startRound {item item' : Value} {m : Exec α} {m' : Exec β} {post : α → β → State → State → Prop}
    (hname : S.names x) (hne : result ≠ x) (hitem : item.Agree S.labels P item')
    (h : ∀ Q v, P ≤ Q → holds found Q v →
      Alike S ((Assumption.bound result v).Within S (V.withTop (· = result)) Q (c + found.length)) post m m') :
    Alike S (Gathered S (V.withTop fun y => y = x ∨ y = result) P holds result c found) post
      (do charge S.budget 1; setVar x item; m) (do charge S.budget' 1; setVar x item'; m') := by
  refine Alike.ofGathered fun Q v hle hv => Assumption.charge 1 ?_
  refine Assumption.setBoth (· = result) hname hne (hitem.mono hle) (fun z hz => ?_) ?_
  · rwa [View.top_withTop] at hz
  · rw [View.withTop_withTop]
    exact h Q v hle hv

/-- A loop that goes on gathering beside a comprehension. -/
theorem Alike.gather (hname : S.names x) (hne : result ≠ x)
    (hcond : ∀ v, Option.Rel (fun test test' => ∀ P c, SimUnder (.bound result v) S (V.withTop (· = result)) P c c
      (Value.Agree S.labels) test test') cond cond')
    (hmono : ∀ found P Q v, P ≤ Q → holds found P v → holds found Q v)
    (hinner : ∀ found, Alike S (Gathered S (V.withTop (· = result)) P holds result c found)
      (fun flow v s s' => flow = .next ∧ Gathered S (V.withTop (· = result)) P holds result c (v :: found) s s')
      inner element')
    (hitems : Values.Agree S.labels P items items') :
    Alike S (Gathered S (V.withTop fun y => y = x ∨ y = result) P holds result c [])
      (fun flow vs s s' => flow = .next ∧ ∃ found, vs = List.reverse found ∧
        Gathered S (V.withTop fun y => y = x ∨ y = result) P holds result c found s s')
      (forRounds S.budget x (guardedBy S.budget cond inner) items)
      (shielding x (collect S.budget' x cond' element' [] items')) := by
  have hx : (V.withTop fun y => y = x ∨ y = result).top x := by
    rw [View.top_withTop]
    exact .inl rfl
  have hwiden {found : List Value} {s s' : State}
      (h : Gathered S (V.withTop (· = result)) P holds result c found s s') :
      Gathered S (V.withTop fun y => y = x ∨ y = result) P holds result c found s s' := by
    have hhide := h.hide (fun y => y = x ∨ y = result) fun y hy => .inr (by rwa [View.top_withTop] at hy)
    rwa [View.withTop_withTop] at hhide
  refine Alike.shieldingRight x (Alike.forRounds_collect (fun found item item' hitem => ?_) hitems [])
    (fun s s' h => h.putRight hname hx none) fun flow vs s s' value => ?_
  · refine Gathered.startRound hname hne hitem fun Q v hle hv => Alike.guarded (hcond v) (fun R hle' => ?_) ?_
    · refine Alike.mapRight some ((hinner found).weaken fun s s' h => ?_) fun flow w s s' h => ⟨h.1, hwiden h.2⟩
      exact ⟨R, v, le_trans hle hle', hmono _ _ _ _ hle' hv, h⟩
    · exact fun R hle' s s' h => ⟨rfl, hwiden ⟨R, v, le_trans hle hle', hmono _ _ _ _ hle' hv, h⟩⟩
  · rintro ⟨rfl, found, rfl, h⟩
    exact ⟨rfl, found, rfl, h.putRight hname hx value⟩

/-- In the end, the second run gives the variable what it holds in the first. -/
theorem Alike.settleRight {v v' : Value} (hname : S.names result) (hV : ∀ y, V.top y ↔ y = x) (hle : P ≤ Q)
    (hv : v.Agree S.labels Q v') :
    Alike S ((Assumption.bound result v).Within S (V.withTop fun y => y = x ∨ y = result) Q c)
      (fun flow flow' s s' => ∃ R, P ≤ R ∧ Flow.Agree S.labels R flow flow' ∧ s.Agree S V R c s')
      (pure .next) (do setVar result v'; return .next) := by
  rintro s s' ⟨hagree, hbound⟩
  refine ⟨.next, _, rfl, Q, hle, .next, ?_⟩
  have hput := hagree.putRight hname (some v') V.top (fun y hy => ?_) fun _ => ?_
  · rwa [View.withTop_withTop, View.withTop_top] at hput
  · rw [View.top_withTop] at hy
    exact hy.symm.imp id (hV y).mpr
  · rw [show s.scope.get? result = some v from hbound]
    exact .some hv

end

end ProgramBreeding

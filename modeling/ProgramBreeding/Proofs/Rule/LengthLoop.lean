import ProgramBreeding.Proofs.Execution.OneSided
import ProgramBreeding.Proofs.Rule.CalmLoop
import ProgramBreeding.Proofs.Rule.GatheringLoop

/-!
# Loops whose length is taken before

A loop in whose condition the length of a list is taken again and again, beside the one that takes it before.  While
nothing in the loop changes the length of a list, the variable holds what each of the calls would yield.

## Main definitions

* `State.HasLength`, `Assumption.length` — what is known while the loop runs.
* `Expr.hoist_sim` — the condition with the calls beside the one with the variable.
* `NeedsLength`, `Expr.needsLength` — a condition does not succeed without the length that it always takes.
* `Block.sim_hoistLength` — the loop beside the one that takes the length before.

## Design notes

The second run takes the length although the first may not have taken it yet.  The condition is evaluated at least
once, so where there is no length the first run fails, and nothing is claimed.
-/

namespace ProgramBreeding

variable {S : Setting} {V : View} {P Q : Pairing} {c c' d : Nat} {α β γ δ : Type}

/-! ### What is known while the loop runs -/

/-- A value has a length, which is a word. -/
structure State.HasLength (s : State) (v : Value) (i : Int64) : Prop where
  lt : ∀ ref, v = .list ref → ref < s.heap.size
  run : (lengthOf v).run s = .ok (.int i) s

theorem countValue_run {n : Nat} {i : Int64} (h : Checked.word? (n : Int) = some i) (s : State) :
    (countValue n).run s = .ok (.int i) s := by
  rw [countValue, h]
  rfl

/-- Whether a count is a word does not depend on the state. -/
theorem countValue_run_of_run {n : Nat} {i : Int64} {s : State} (h : (countValue n).run s = .ok (.int i) s)
    (t : State) : (countValue n).run t = .ok (.int i) t := by
  cases hword : Checked.word? (n : Int) with
  | none =>
    have hnone : (countValue n).run s = .error (.fault .integerOverflow) s := by
      rw [countValue, hword]
      rfl
    exact nomatch hnone.symm.trans h
  | some j =>
    have hij := (countValue_run hword s).symm.trans h
    injection hij with hv
    rw [countValue_run hword t, hv]

theorem lengthOf_list_run (ref : Ref) (s : State) :
    (lengthOf (.list ref)).run s = (countValue (s.heap.items ref).size).run s := by
  rw [lengthOf, run_bind_ok (show (itemsOf ref).run s = .ok (s.heap.items ref) s from rfl)]

/-- A length does not depend on what else there is. -/
theorem State.SameLengths.lengthOf_run_iff {s t : State} {changed : String → Prop} {v : Value} {i : Int64}
    (h : s.SameLengths changed t) (hlt : ∀ ref, v = .list ref → ref < s.heap.size) :
    (lengthOf v).run t = .ok (.int i) t ↔ (lengthOf v).run s = .ok (.int i) s := by
  cases v with
  | list ref =>
    rw [lengthOf_list_run, lengthOf_list_run, h.lengths ref (hlt ref rfl)]
    exact ⟨fun hrun => countValue_run_of_run hrun s, fun hrun => countValue_run_of_run hrun t⟩
  | str text => exact ⟨fun hrun => countValue_run_of_run hrun s, fun hrun => countValue_run_of_run hrun t⟩
  | _ =>
    constructor
    all_goals
      intro hrun
      cases hrun

theorem State.SameLengths.hasLength {s t : State} {changed : String → Prop} {v : Value} {i : Int64}
    (h : s.SameLengths changed t) (hv : s.HasLength v i) : t.HasLength v i :=
  ⟨fun ref heq => (hv.lt ref heq).trans_le h.grows, (h.lengthOf_run_iff hv.lt).mpr hv.run⟩

/-- The variable measured holds a value with a length, and another variable holds the length. -/
def Assumption.length (taken : List String) (name fresh : String) (v : Value) (i : Int64) : Assumption where
  holds _ s s' := (s.Leaves taken ∧ s.lookup name = some v ∧ s.HasLength v i) ∧
    s'.Leaves taken ∧ s'.lookup fresh = some (.int i)
  mono _ := id
  meter := by
    rintro P s s' t t' hs hs' ⟨⟨hleaves, hlookup, hlength⟩, hleaves', hlookup'⟩
    have hsame : s.SameLengths (fun _ => False) t := .of_sameButMeter hs
    have hsame' : s'.SameLengths (fun _ => False) t' := .of_sameButMeter hs'
    refine ⟨⟨hsame.leaves hleaves fun _ => False.elim, ?_, hsame.hasLength hlength⟩, ?_, ?_⟩
    · rw [hsame.scopes.lookup_eq id, hlookup]
    · exact hsame'.leaves hleaves' fun _ => False.elim
    · rw [hsame'.scopes.lookup_eq id, hlookup']

section

variable {N : NameUse} {name fresh x : String} {v : Value} {i : Int64} {m : Exec α} {m' : Exec β} {f : α → Exec γ}
  {f' : β → Exec δ} {post : γ → δ → State → State → Prop} {A : Pairing → α → β → Prop}

theorem Assumption.length_of_sameLengths (hname : ¬ N.changed name) (hfresh : ¬ N.changed fresh) {s s' t t' : State}
    (hsame : s.SameLengths N.changed t) (hsame' : s'.SameLengths N.changed t')
    (h : (length N.taken name fresh v i).holds P s s') : (length N.taken name fresh v i).holds P t t' := by
  obtain ⟨⟨hleaves, hlookup, hlength⟩, hleaves', hlookup'⟩ := h
  refine ⟨⟨hsame.leaves hleaves fun _ => N.mem_taken, ?_, hsame.hasLength hlength⟩, ?_, ?_⟩
  · rw [hsame.scopes.lookup_eq hname, hlookup]
  · exact hsame'.leaves hleaves' fun _ => N.mem_taken
  · rw [hsame'.scopes.lookup_eq hfresh, hlookup']

theorem getVar_run {y : String} {w : Value} {s : State} (h : s.lookup y = some w) :
    (getVar y).run s = .ok w s := by
  unfold getVar
  rw [run_bind_ok (show (get : Exec State).run s = .ok s s from rfl), h]
  rfl

/-- What keeps lengths keeps what is known. -/
theorem Assumption.length_survives (hname : ¬ N.changed name) (hfresh : ¬ N.changed fresh) (hm : KeepsLengths N m)
    (hm' : KeepsLengths N m') : (length N.taken name fresh v i).Survives m m' := by
  intro P s s' a a' t t' h hrun hrun'
  exact length_of_sameLengths hname hfresh (hm.sameLengths h.1.1 hrun) (hm'.sameLengths h.2.1 hrun') h

/-- A name that is not taken is that of the same built-in function in both runs. -/
theorem Assumption.getBuiltin {b : String} {f : Value → Exec γ} {f' : Value → Exec δ} (hfaithful : ¬ S.faithful)
    (hb : b ∉ N.taken) (h : ∀ builtin, Alike S ((length N.taken name fresh v i).Within S V P c) post
      (f (.builtin builtin)) (f' (.builtin builtin))) :
    Alike S ((length N.taken name fresh v i).Within S V P c) post (getVar b >>= f) (getVar b >>= f') := by
  intro s s' hwithin
  have hlookup := hwithin.2.1.1.lookup_eq hb
  have hlookup' := hwithin.2.2.1.lookup_eq hb
  cases hfound : Builtin.ofName? b with
  | none =>
    have hrun : (getVar b).run s = .error (.fault (.undefinedName b)) s := by
      unfold getVar
      rw [run_bind_ok (show (get : Exec State).run s = .ok s s from rfl), hlookup, hfound]
      rfl
    rw [run_bind_error hrun]
    exact fun h => absurd h hfaithful
  | some builtin =>
    rw [hfound] at hlookup hlookup'
    rw [run_bind_ok (getVar_run hlookup), run_bind_ok (getVar_run hlookup')]
    exact h builtin s s' hwithin

/-- The first run reads a variable. -/
theorem Assumption.lookLeft {F : Assumption} {y : String} {w : Value} {f : Value → Exec γ} {n' : Exec δ}
    (hF : ∀ P s s', F.holds P s s' → s.lookup y = some w) (h : Alike S (F.Within S V P c) post (f w) n') :
    Alike S (F.Within S V P c) post (getVar y >>= f) n' := by
  intro s s' hwithin
  rw [run_bind_ok (getVar_run (hF _ _ _ hwithin.2))]
  exact h s s' hwithin

/-- The second run reads a variable. -/
theorem Assumption.lookRight {F : Assumption} {y : String} {w : Value} {n : Exec γ} {f' : Value → Exec δ}
    (hF : ∀ P s s', F.holds P s s' → s'.lookup y = some w) (h : Alike S (F.Within S V P c) post n (f' w)) :
    Alike S (F.Within S V P c) post n (getVar y >>= f') := by
  intro s s' hwithin
  rw [run_bind_ok (getVar_run (hF _ _ _ hwithin.2))]
  exact h s s' hwithin

/-- A variable that may change is free meanwhile in both runs. -/
theorem SimUnder.shielding (hname : ¬ N.changed name) (hfresh : ¬ N.changed fresh) (hx : N.changed x)
    (h : SimUnder (.length N.taken name fresh v i) S V P c c' A m m') :
    SimUnder (.length N.taken name fresh v i) S V P c c' A (shielding x m) (shielding x m') := by
  rintro s s' ⟨hagree, hknown⟩
  rw [shielding_run, shielding_run]
  have hfree := hagree.updateScope fun _ _ hscope =>
    hscope.put x (fun _ => .none) (absurd rfl) (absurd rfl)
  have hknown' := Assumption.length_of_sameLengths hname hfresh (.put hx none) (.put hx none) hknown
  refine (h _ _ ⟨hfree, hknown'⟩).endIn (fun a a' t t' => ?_) (fun t => ⟨t.updateScope_output _, t.updateScope_used _⟩)
    fun t => ⟨t.updateScope_output _, t.updateScope_used _⟩
  rintro ⟨Q, hle, ha, ht, hends⟩
  have hscope := hagree.scope.grow hle.1
  refine ⟨Q, hle, ha, ht.updateScope fun _ _ hopen => ?_, ?_⟩
  · exact hopen.put x (hscope.values x) (hscope.names x) (hscope.names' x)
  · exact Assumption.length_of_sameLengths hname hfresh (.put hx _) (.put hx _) hends

/-- By induction on the items. -/
theorem SimUnder.collect {cond cond' : Option (Exec Value)} {element element' : Exec Value}
    {found found' items items' : List Value} (hname : ¬ N.changed name) (hfresh : ¬ N.changed fresh)
    (hx : N.changed x) (hnames : S.names x)
    (hcond : Option.Rel (fun m m' => ∀ P c, SimUnder (.length N.taken name fresh v i) S V P c c
      (Value.Agree S.labels) m m') cond cond')
    (helement : ∀ P c, SimUnder (.length N.taken name fresh v i) S V P c c (Value.Agree S.labels) element element')
    (hfound : Values.Agree S.labels P found found') (hitems : Values.Agree S.labels P items items') :
    SimUnder (.length N.taken name fresh v i) S V P c c (Values.Agree S.labels)
      (collect S.budget x cond element found items) (collect S.budget' x cond' element' found' items') := by
  induction items generalizing P found found' items' with
  | nil =>
    cases hitems
    exact .pure (hfound.reverse)
  | cons item rest ih =>
    obtain ⟨item', rest', hitem, hrest, rfl⟩ := List.forall₂_cons_left_iff.mp hitems
    refine Assumption.charge 1 ((Step.setVar hnames hitem).under ?_ fun _ _ _ => ?_)
    · exact Assumption.length_survives hname hfresh (.setVar _ hx) (.setVar _ hx)
    have hwanted (Q : Pairing) (hle : P ≤ Q) (wanted : Bool) :
        SimUnder (.length N.taken name fresh v i) S V Q c c (Values.Agree S.labels)
        (if wanted then do
          let v ← element
          ProgramBreeding.collect S.budget x cond element (v :: found) rest
        else ProgramBreeding.collect S.budget x cond element found rest)
        (if wanted then do
          let v ← element'
          ProgramBreeding.collect S.budget' x cond' element' (v :: found') rest'
        else ProgramBreeding.collect S.budget' x cond' element' found' rest') := by
      cases wanted with
      | true =>
        refine (helement Q c).bind fun R hle' _ _ hv => ?_
        exact ih (.cons hv (hfound.mono (le_trans hle hle'))) (Values.Agree.mono (le_trans hle hle') hrest)
      | false => exact ih (hfound.mono hle) (Values.Agree.mono hle hrest)
    cases hcond with
    | none =>
      simp only [pure_bind]
      exact Alike.imp (hwanted P le_rfl true) fun _ _ _ _ => id
    | some h =>
      refine (h P c).andThen fun Q hle w w' hw => ?_
      refine (Step.truth hw).under (Assumption.survives_of_inspects (.truth _) (.truth _)) fun b b' hb => ?_
      rw [← hb]
      refine Alike.imp (hwanted Q hle b) fun vs vs' t t' ht => ?_
      obtain ⟨R, hR, hends⟩ := ht
      exact ⟨R, le_trans hle hR, hends⟩

/-- A comprehension in both runs. -/
theorem SimUnder.runComprehension {cond cond' : Option (Exec Value)} {element element' : Exec Value}
    {w w' : Value} (hname : ¬ N.changed name) (hfresh : ¬ N.changed fresh) (hx : N.changed x) (hnames : S.names x)
    (hcond : Option.Rel (fun m m' => ∀ P c, SimUnder (.length N.taken name fresh v i) S V P c c
      (Value.Agree S.labels) m m') cond cond')
    (helement : ∀ P c, SimUnder (.length N.taken name fresh v i) S V P c c (Value.Agree S.labels) element element')
    (hw : w.Agree S.labels P w') :
    SimUnder (.length N.taken name fresh v i) S V P c c (Value.Agree S.labels)
      (runComprehension S.budget x cond element w) (runComprehension S.budget' x cond' element' w') := by
  refine (Step.iterate hw).under (Assumption.survives_of_inspects (.iterate _) (.iterate _)) fun _ _ hitems => ?_
  refine SimUnder.bind (.shielding hname hfresh hx (.collect hname hfresh hx hnames hcond helement .nil hitems))
    fun Q _ found found' hfound => ?_
  exact (Sim.newList hfound).under (Assumption.length_survives hname hfresh (.newList _) (.newList _))

end

/-! ### The condition -/

/-- What both runs of a condition rely on. -/
structure Expr.Hoistable (S : Setting) (V : View) (N : NameUse) (e : Expr Label) : Prop where
  tame : (Node.expr e).IsTame N False
  names : ∀ x ∈ (Node.expr e).boundNames, S.names x
  reads : ∀ x, (Node.expr e).isName x = true → ¬ V.Hides x

section

variable {N : NameUse} {name fresh : String} {v : Value} {i : Int64} {call call' : Label → List Value → Exec Value}
  {reference : Label → Label}

theorem Expr.exists_of_lengthOf? {e : Expr Label} (h : e.lengthOf? = some name) :
    ∃ l k k', e = .call l (.name k "len") [.name k' name] := by
  unfold Expr.lengthOf? at h
  split at h
  · rename_i l k callee k' id
    split at h
    · rename_i hlen
      cases h
      exact ⟨l, k, k', by rw [beq_iff_eq.mp hlen]⟩
    · cases h
  · cases h

/-- What taking a length does. -/
theorem Expr.eval_length (env : Env) (l k k' : Label) (x : String) :
    (Expr.call l (.name k "len") [.name k' x]).eval env = (do
      charge env.budget 1
      charge env.budget 1
      let f ← getVar "len"
      charge env.budget 1
      let v ← getVar x
      callValue env f [v]) := by
  rw [Expr.eval_call _ _ _ rfl]
  simp only [Expr.eval, Expr.evalAll, bind_assoc, pure_bind]

theorem callValue_len (env : Env) (v : Value) : callValue env (.builtin .len) [v] = (do
    charge env.budget 1
    lengthOf v) := rfl

/-- What takes a length of the variable measured yields what the other variable holds. -/
theorem Expr.sim_lengthOf (hlen : "len" ∉ N.taken) {e : Expr Label}
    (h : e.lengthOf? = some name) (l : Label) (P : Pairing) (c : Nat) :
    SimUnder (.length N.taken name fresh v i) S V P c c (Value.Agree S.labels) (e.eval ⟨S.budget, call⟩)
      ((Expr.name l fresh).eval ⟨S.budget', call'⟩) := by
  obtain ⟨k, k', k'', rfl⟩ := Expr.exists_of_lengthOf? h
  rw [Expr.eval_length]
  refine Assumption.charge 1 (Assumption.wasteLeft 1 ?_)
  refine Assumption.lookLeft (w := .builtin .len) (fun _ _ _ hknown => hknown.1.1.lookup_eq hlen) ?_
  refine Assumption.wasteLeft 1 (Assumption.lookLeft (fun _ _ _ hknown => hknown.1.2.1) ?_)
  rw [callValue_len, ← bind_pure (getVar fresh)]
  refine Assumption.wasteLeft 1 (Assumption.lookRight (fun _ _ _ hknown => hknown.2.2) ?_)
  intro s s' hwithin
  rw [hwithin.2.1.2.2.run]
  exact ⟨.int i, s', rfl, P, le_rfl, .int i, hwithin⟩

/-- A name that is not taken is that of the same built-in function in both runs. -/
theorem SimUnder.callBuiltin (hname : ¬ N.changed name) (hfresh : ¬ N.changed fresh) (b : Builtin) {vs vs' : List Value}
    (h : Values.Agree S.labels P vs vs') :
    SimUnder (.length N.taken name fresh v i) S V P c c (Value.Agree S.labels)
      (callBuiltin S.budget b vs) (callBuiltin S.budget' b vs') :=
  (Sim.callBuiltin b h).under (Assumption.length_survives hname hfresh (.callBuiltin ..) (.callBuiltin ..))

variable (hfaithful : ¬ S.faithful) (hlen : "len" ∉ N.taken) (hname : ¬ N.changed name) (hfresh : ¬ N.changed fresh)

include hfaithful hlen hname hfresh

set_option linter.unusedSectionVars false in
mutual

/-- The condition does the same with the variable in the place of the calls. -/
theorem Expr.hoist_sim : ∀ e : Expr Label, (∀ part ∈ e.subterms, part.Hoistable S V N) → ∀ P c,
      SimUnder (.length N.taken name fresh v i) S V P c c (Value.Agree S.labels) (e.eval ⟨S.budget, call⟩)
        ((e.hoist name fresh reference).eval ⟨S.budget', call'⟩)
  | .name _ x, h, P, c => by
    have hshown := (h _ (Expr.self_mem_subterms _)).reads x (beq_self_eq_true x)
    refine Assumption.charge 1 (Sim.under ?_ (Assumption.survives_of_inspects (.getVar _) (.getVar _)))
    exact (Step.getVar hshown).sim
  | .constant _ value, _, P, c => Assumption.charge 1 (SimUnder.pure (Value.agree_ofLiteral value))
  | .list _ items, h, P, c => by
    refine Assumption.charge 1 ?_
    refine (Expr.hoistAll_sim items (fun e he => Expr.forall_child h he) P c).bind fun Q _ vs vs' hvs => ?_
    exact (Sim.newList (by simpa)).under (Assumption.length_survives hname hfresh (.newList _) (.newList _))
  | .comprehension _ _ element x source cond, h, P, c => by
    have hx : N.changed x := (h _ (Expr.self_mem_subterms _)).tame.bound x (List.mem_singleton_self x)
    have hnames : S.names x := (h _ (Expr.self_mem_subterms _)).names x (List.mem_singleton_self x)
    rw [Expr.hoist, Expr.eval_comprehension, Expr.eval_comprehension]
    refine Assumption.charge 1 ?_
    refine (source.hoist_sim (Expr.forall_child h (by simp [children])) P c).bind fun Q _ w w' hw => ?_
    refine .runComprehension hname hfresh hx hnames ?_ (element.hoist_sim (Expr.forall_child h (by simp [children]))) hw
    cases cond with
    | none => exact .none
    | some test => exact .some (test.hoist_sim (Expr.forall_child h (by simp [children])))
  | .binary _ op left right, h, P, c => by
    refine Assumption.charge 1 ?_
    refine (left.hoist_sim (Expr.forall_child h (by simp [children])) P c).bind fun Q _ a a' ha => ?_
    refine (right.hoist_sim (Expr.forall_child h (by simp [children])) Q c).bind fun R hle b b' hb => ?_
    exact (Sim.binaryOp op (ha.mono hle) hb).under
      (Assumption.length_survives hname hfresh (.binaryOp ..) (.binaryOp ..))
  | .unary _ op operand, h, P, c => by
    refine Assumption.charge 1 ?_
    refine (operand.hoist_sim (Expr.forall_child h (by simp [children])) P c).bind fun Q _ a a' ha => ?_
    exact (Sim.signOp op ha).under (Assumption.survives_of_inspects (.signOp ..) (.signOp ..))
  | .logic _ op left right, h, P, c => by
    refine Assumption.charge 1 ?_
    refine (left.hoist_sim (Expr.forall_child h (by simp [children])) P c).bind fun Q _ a a' ha => ?_
    refine (Step.truth ha).under (Assumption.survives_of_inspects (.truth _) (.truth _)) fun b b' hb => ?_
    rw [← hb]
    split
    · exact SimUnder.pure ha
    · exact right.hoist_sim (Expr.forall_child h (by simp [children])) Q c
  | .compare _ op left right, h, P, c => by
    refine Assumption.charge 1 ?_
    refine (left.hoist_sim (Expr.forall_child h (by simp [children])) P c).bind fun Q _ a a' ha => ?_
    refine (right.hoist_sim (Expr.forall_child h (by simp [children])) Q c).bind fun R hle b b' hb => ?_
    refine Sim.under (.get fun s s' hagree => ?_) (Assumption.survives_of_inspects (.compare ..) (.compare ..))
    rw [compareValues_eq op hagree.heap (ha.mono hle) hb]
    exact .ofExcept_bind _ fun b => .pure (.bool b)
  | .call l callee args, h, P, c => by
    rw [Expr.hoist]
    split
    · rename_i hcall
      exact Expr.sim_lengthOf hlen hcall _ P c
    have htame := (h _ (Expr.self_mem_subterms _)).tame
    have hargs := Expr.hoistAll_sim args fun e he => Expr.forall_child h (by simp [children, he])
    cases hattribute : callee.isAttribute with
    | true =>
      obtain ⟨k, value, method, rfl⟩ := Expr.exists_of_isAttribute hattribute
      have hmethod : method ∉ resizingMethods := by simpa [Node.isCalm] using htame.calm
      refine Assumption.charge 1 ?_
      refine (value.hoist_sim (fun part hpart => h part (by simp [subterms, hpart])) P c).bind fun Q _ w w' hw => ?_
      refine (hargs Q c).bind fun R hle vs vs' hvs => ?_
      exact (Sim.callMethod method (hw.mono hle) hvs).under
        (Assumption.length_survives hname hfresh (.callMethod _ _ _ hmethod) (.callMethod _ _ _ hmethod))
    | false =>
      obtain ⟨k, f, rfl, hf⟩ := Node.exists_name_of_callsBuiltins (htame.called.resolve_left id) hattribute
      rw [Expr.hoist, Expr.eval_call _ _ _ rfl, Expr.eval_call _ _ _ rfl]
      simp only [Expr.eval, bind_assoc]
      refine Assumption.charge 1 (Assumption.charge 1 (Assumption.getBuiltin hfaithful hf fun b => ?_))
      exact (hargs P c).bind fun Q _ vs vs' hvs => .callBuiltin hname hfresh b hvs
  | .attribute .., _, P, c => Assumption.charge 1 fun _ _ _ hmust => absurd hmust hfaithful
  | .subscript _ value index, h, P, c => by
    refine Assumption.charge 1 ?_
    refine (value.hoist_sim (Expr.forall_child h (by simp [children])) P c).bind fun Q _ a a' ha => ?_
    refine (index.hoist_sim (Expr.forall_child h (by simp [children])) Q c).bind fun R hle b b' hb => ?_
    exact (Sim.elementAt (ha.mono hle) hb).under (Assumption.survives_of_inspects (.elementAt ..) (.elementAt ..))

theorem Expr.hoistAll_sim : ∀ es : List (Expr Label),
      (∀ e ∈ es, ∀ part ∈ e.subterms, part.Hoistable S V N) → ∀ P c,
        SimUnder (.length N.taken name fresh v i) S V P c c (Values.Agree S.labels)
          (Expr.evalAll ⟨S.budget, call⟩ es)
          (Expr.evalAll ⟨S.budget', call'⟩ (Expr.hoistAll name fresh reference es))
  | [], _, P, c => .pure .nil
  | e :: rest, h, P, c => by
    refine (e.hoist_sim (h e (List.mem_cons_self ..)) P c).bind fun Q _ w w' hw => ?_
    refine (Expr.hoistAll_sim rest (fun e he => h e (List.mem_cons_of_mem _ he)) Q c).bind fun R hle vs vs' hvs => ?_
    exact .pure (.cons (hw.mono hle) hvs)

end

end

/-! ### Lengths that there are not -/

/-- What a variable holds, if anything, has no length. -/
def State.NoLength (name : String) (s : State) : Prop :=
  ∀ v, s.lookup name = some v → (∀ ref, v = .list ref → ref < s.heap.size) ∧ ∀ i, (lengthOf v).run s ≠ .ok (.int i) s

/-- An action that does not succeed where a variable has no length. -/
structure NeedsLength (N : NameUse) (name : String) (m : Exec α) : Prop where
  fails : ∀ s a t, s.Leaves N.taken → s.NoLength name → m.run s ≠ .ok a t

section

variable {N : NameUse} {name : String} {m : Exec α} {f : α → Exec β} {env : Env}

theorem State.SameLengths.noLength {s t : State} {changed : String → Prop} (h : s.SameLengths changed t)
    (hname : ¬ changed name) (hs : s.NoLength name) : t.NoLength name := by
  intro v hv
  rw [h.scopes.lookup_eq hname] at hv
  obtain ⟨hlt, hnone⟩ := hs v hv
  exact ⟨fun ref heq => (hlt ref heq).trans_le h.grows, fun i hrun => hnone i ((h.lengthOf_run_iff hlt).mp hrun)⟩

namespace NeedsLength

theorem first (hm : NeedsLength N name m) : NeedsLength N name (m >>= f) := by
  refine ⟨fun s a t hs hnone hrun => ?_⟩
  obtain ⟨b, u, hfirst, -⟩ := run_bind_eq_ok hrun
  exact hm.fails s b u hs hnone hfirst

theorem next (hname : ¬ N.changed name) (hm : KeepsLengths N m) (hf : ∀ a, NeedsLength N name (f a)) :
    NeedsLength N name (m >>= f) := by
  refine ⟨fun s a t hs hnone hrun => ?_⟩
  obtain ⟨b, u, hfirst, hrest⟩ := run_bind_eq_ok hrun
  exact (hf b).fails u a t (hm.leaves hs hfirst) ((hm.sameLengths hs hfirst).noLength hname hnone) hrest

end NeedsLength

theorem getVar_run_eq_ok {x : String} {v : Value} {s t : State} (h : (getVar x).run s = .ok v t) :
    s.lookup x = some v ∧ t = s := by
  unfold getVar at h
  rw [run_bind_ok (show (get : Exec State).run s = .ok s s from rfl)] at h
  cases hlookup : s.lookup x with
  | none =>
    rw [hlookup] at h
    cases h
  | some w =>
    rw [hlookup] at h
    cases h
    exact ⟨rfl, rfl⟩

theorem countValue_run_eq_ok {n : Nat} {v : Value} {s t : State} (h : (countValue n).run s = .ok v t) :
    ∃ i, v = .int i ∧ t = s := by
  cases hword : Checked.word? (n : Int) with
  | none =>
    have hnone : (countValue n).run s = .error (.fault .integerOverflow) s := by
      rw [countValue, hword]
      rfl
    exact nomatch hnone.symm.trans h
  | some i =>
    have hsome := (countValue_run hword s).symm.trans h
    injection hsome with hv ht
    exact ⟨i, hv.symm, ht.symm⟩

theorem lengthOf_run_eq_ok {w v : Value} {s t : State} (h : (lengthOf w).run s = .ok v t) :
    ∃ i, v = .int i ∧ t = s := by
  cases w with
  | list ref =>
    rw [lengthOf_list_run] at h
    exact countValue_run_eq_ok h
  | str text => exact countValue_run_eq_ok h
  | _ => cases h

/-- Taking a length needs one. -/
theorem Expr.needsLength_of_lengthOf? (hlen : "len" ∉ N.taken) (hname : ¬ N.changed name) {e : Expr Label}
    (h : e.lengthOf? = some name) : NeedsLength N name (e.eval env) := by
  obtain ⟨l, k, k', rfl⟩ := Expr.exists_of_lengthOf? h
  rw [Expr.eval_length]
  refine .next hname (.charge ..) fun _ => .next hname (.charge ..) fun _ => ⟨fun s a t hs hnone hrun => ?_⟩
  obtain ⟨callee, u, hcallee, hrun⟩ := run_bind_eq_ok hrun
  obtain ⟨b, hb, rfl⟩ := getVar_eq_ok hlen hs hcallee
  obtain rfl : b = .len := Option.some.inj (hb.symm.trans rfl)
  have hkeeps : KeepsLengths N (getVar "len") := .of_inspects (.getVar _)
  have hrest : NeedsLength N name (do
      charge env.budget 1
      let v ← getVar name
      callValue env (.builtin .len) [v]) := by
    refine .next hname (.charge ..) fun _ => ⟨fun s a t hs hnone hrun => ?_⟩
    obtain ⟨v, u, hv, hcall⟩ := run_bind_eq_ok hrun
    obtain ⟨hlookup, rfl⟩ := getVar_run_eq_ok hv
    rw [callValue_len] at hcall
    obtain ⟨_, u', hcharge, hlength⟩ := run_bind_eq_ok hcall
    have hsame := (KeepsLengths.charge (N := N) env.budget 1).sameLengths hs hcharge
    obtain ⟨i, rfl, rfl⟩ := lengthOf_run_eq_ok hlength
    refine ((hsame.noLength hname hnone) v ?_).2 i hlength
    rw [hsame.scopes.lookup_eq hname, hlookup]
  exact hrest.fails u a t (hkeeps.leaves hs hcallee) ((hkeeps.sameLengths hs hcallee).noLength hname hnone) hrun

variable (hlen : "len" ∉ N.taken) (hname : ¬ N.changed name)

include hlen hname

set_option linter.unusedSectionVars false in
mutual

/-- An expression needs the length that it always takes. -/
theorem Expr.needsLength : ∀ e : Expr Label,
    (∀ part ∈ e.subterms, (Node.expr part).IsTame N False) →
      some name ∈ e.alwaysEvaluated.map Expr.lengthOf? → NeedsLength N name (e.eval env)
  | .name .., _, h => by simp [Expr.alwaysEvaluated, Expr.lengthOf?] at h
  | .constant .., _, h => by simp [Expr.alwaysEvaluated, Expr.lengthOf?] at h
  | .list _ items, htame, h => by
    replace h := (List.mem_cons.mp h).resolve_left (by simp [Expr.lengthOf?])
    exact .next hname (.charge ..) fun _ =>
      (Expr.needsLength_evalAll items (fun e he => Expr.forall_child htame he) h).first
  | .comprehension _ _ element x source cond, htame, h => by
    replace h := (List.mem_cons.mp h).resolve_left (by simp [Expr.lengthOf?])
    rw [Expr.eval_comprehension]
    exact .next hname (.charge ..) fun _ =>
      (source.needsLength (Expr.forall_child htame (by simp [children])) h).first
  | .binary _ op left right, htame, h => by
    replace h := (List.mem_cons.mp h).resolve_left (by simp [Expr.lengthOf?])
    rw [List.map_append, List.mem_append] at h
    have hleft : ∀ part ∈ left.subterms, (Node.expr part).IsTame N False :=
      Expr.forall_child htame (by simp [children])
    have hright : ∀ part ∈ right.subterms, (Node.expr part).IsTame N False :=
      Expr.forall_child htame (by simp [children])
    refine .next hname (.charge ..) fun _ => ?_
    rcases h with h | h
    · exact (left.needsLength hleft h).first
    · exact .next hname (left.eval_keepsLengths False.elim hleft) fun _ =>
        (right.needsLength hright h).first
  | .unary _ op operand, htame, h => by
    replace h := (List.mem_cons.mp h).resolve_left (by simp [Expr.lengthOf?])
    exact .next hname (.charge ..) fun _ =>
      (operand.needsLength (Expr.forall_child htame (by simp [children])) h).first
  | .logic _ op left right, htame, h => by
    replace h := (List.mem_cons.mp h).resolve_left (by simp [Expr.lengthOf?])
    exact .next hname (.charge ..) fun _ =>
      (left.needsLength (Expr.forall_child htame (by simp [children])) h).first
  | .compare _ op left right, htame, h => by
    replace h := (List.mem_cons.mp h).resolve_left (by simp [Expr.lengthOf?])
    rw [List.map_append, List.mem_append] at h
    have hleft : ∀ part ∈ left.subterms, (Node.expr part).IsTame N False :=
      Expr.forall_child htame (by simp [children])
    have hright : ∀ part ∈ right.subterms, (Node.expr part).IsTame N False :=
      Expr.forall_child htame (by simp [children])
    refine .next hname (.charge ..) fun _ => ?_
    rcases h with h | h
    · exact (left.needsLength hleft h).first
    · exact .next hname (left.eval_keepsLengths False.elim hleft) fun _ =>
        (right.needsLength hright h).first
  | .call l callee args, htame, h => by
    by_cases hcall : some name = (Expr.call l callee args).lengthOf?
    · exact Expr.needsLength_of_lengthOf? hlen hname hcall.symm
    replace h := (List.mem_cons.mp h).resolve_left hcall
    rw [List.map_append, List.mem_append] at h
    have hargsTame : ∀ e ∈ args, ∀ part ∈ e.subterms, (Node.expr part).IsTame N False := fun e he =>
      Expr.forall_child htame (by simp [children, he])
    have hargs := Expr.needsLength_evalAll args hargsTame
    cases hattribute : callee.isAttribute with
    | true =>
      obtain ⟨k, value, method, rfl⟩ := Expr.exists_of_isAttribute hattribute
      replace h := h.imp_left fun h => (List.mem_cons.mp h).resolve_left (by simp [Expr.lengthOf?])
      have hvalue : ∀ part ∈ value.subterms, (Node.expr part).IsTame N False := fun part hpart =>
        htame part (by simp [subterms, hpart])
      refine .next hname (.charge ..) fun _ => ?_
      rcases h with h | h
      · exact (value.needsLength hvalue h).first
      · exact .next hname (value.eval_keepsLengths False.elim hvalue) fun _ => (hargs h).first
    | false =>
      have hcallee : ∀ part ∈ callee.subterms, (Node.expr part).IsTame N False :=
        Expr.forall_child htame (by simp [children])
      rw [Expr.eval_call _ _ _ hattribute]
      refine .next hname (.charge ..) fun _ => ?_
      rcases h with h | h
      · exact (callee.needsLength hcallee h).first
      · exact .next hname (callee.eval_keepsLengths False.elim hcallee) fun _ => (hargs h).first
  | .attribute _ value attr, htame, h => ⟨fun s a t hs hnone hrun => by
      obtain ⟨_, u, -, hrest⟩ := run_bind_eq_ok hrun
      cases hrest⟩
  | .subscript _ value index, htame, h => by
    replace h := (List.mem_cons.mp h).resolve_left (by simp [Expr.lengthOf?])
    rw [List.map_append, List.mem_append] at h
    have hleft : ∀ part ∈ value.subterms, (Node.expr part).IsTame N False :=
      Expr.forall_child htame (by simp [children])
    have hright : ∀ part ∈ index.subterms, (Node.expr part).IsTame N False :=
      Expr.forall_child htame (by simp [children])
    refine .next hname (.charge ..) fun _ => ?_
    rcases h with h | h
    · exact (value.needsLength hleft h).first
    · exact .next hname (value.eval_keepsLengths False.elim hleft) fun _ =>
        (index.needsLength hright h).first

theorem Expr.needsLength_evalAll : ∀ es : List (Expr Label),
    (∀ e ∈ es, ∀ part ∈ e.subterms, (Node.expr part).IsTame N False) →
      some name ∈ (Expr.alwaysEvaluatedAll es).map Expr.lengthOf? → NeedsLength N name (Expr.evalAll env es)
  | [], _, h => by simp [Expr.alwaysEvaluatedAll] at h
  | e :: rest, htame, h => by
    rw [Expr.alwaysEvaluatedAll, List.map_append, List.mem_append] at h
    have he := htame e (List.mem_cons_self ..)
    rcases h with h | h
    · exact (e.needsLength he h).first
    · exact .next hname (e.eval_keepsLengths False.elim he) fun _ =>
        (Expr.needsLength_evalAll rest (fun e he => htame e (List.mem_cons_of_mem _ he)) h).first

end

end

/-! ### The loop -/

section

variable {N : NameUse} {name fresh : String} {v v' : Value} {i : Int64}
  {call call' : Label → List Value → Exec Value} {test : Expr Label} {body : Block Label}
  {post : γ → δ → State → State → Prop}

/-- By induction on the rounds that the first run may still make. -/
theorem SimUnder.whileRounds {F : Assumption} {test test' : Exec Value} {body body' : Exec Flow}
    (htest : ∀ P c, SimUnder F S V P c c (Value.Agree S.labels) test test')
    (hbody : ∀ P c, SimUnder F S V P (c + S.extra) c (Flow.Agree S.labels) body body') {count count' : Nat}
    (hcount : count ≤ count') (P : Pairing) (c : Nat) : SimUnder F S V P c c (Flow.Agree S.labels)
      (whileRounds S.budget test body count) (whileRounds S.budget' test' body' count') := by
  induction count generalizing P count' with
  | zero =>
    intro s s' _ _ hfuel
    cases hfuel
  | succ count ih =>
    obtain ⟨count', rfl⟩ := Nat.exists_eq_succ_of_ne_zero (Nat.ne_zero_of_lt hcount)
    refine (Step.earn 1).under (Assumption.survives_of_inspects (.charge ..) (.charge ..)) fun _ _ _ => ?_
    refine SimUnder.bind (htest P _) fun Q _ v v' hv => ?_
    refine (Step.truth hv).under (Assumption.survives_of_inspects (.truth _) (.truth _)) fun b b' hb => ?_
    rw [← hb]
    split
    · refine SimUnder.bind (d := c) (by simpa using hbody Q c) fun R _ flow flow' hflow => ?_
      cases hflow with
      | brk => exact SimUnder.pure .next
      | ret hv => exact SimUnder.pure (.ret hv)
      | next => exact ih (Nat.le_of_succ_le_succ hcount) R
      | cont => exact ih (Nat.le_of_succ_le_succ hcount) R
    · exact SimUnder.mono (Nat.le_add_right ..) (SimUnder.pure .next)

/-- Values that agree are equally long. -/
theorem State.Agree.hasLength {s s' : State} (h : s.Agree S V P c s') (hv : v.Agree S.labels P v')
    (hlength : s.HasLength v i) : s'.HasLength v' i := by
  obtain ⟨hlt, hrun⟩ := hlength
  cases hv with
  | list hr =>
    refine ⟨fun ref heq => ?_, ?_⟩
    · cases heq
      exact (h.heap.lt hr).2
    · rw [lengthOf_list_run] at hrun ⊢
      rw [← h.heap.size_eq hr]
      exact countValue_run_of_run hrun s'
  | str text =>
    refine ⟨fun ref heq => ?_, countValue_run_of_run hrun s'⟩
    cases heq
  | _ => cases hrun

/-- Names that no variable has stand for built-in functions. -/
theorem State.Agree.leaves {s s' : State} (h : s.Agree S V P c s') {taken : List String}
    (htaken : ∀ x, S.names x → x ∈ taken) : s.Leaves taken ∧ s'.Leaves taken := by
  refine ⟨fun x hx => ⟨?_, ?_⟩, fun x hx => ⟨?_, ?_⟩⟩
  all_goals by_contra hne
  · exact hx (htaken x (h.globals.names x hne))
  · exact hx (htaken x (h.scope.names x hne))
  · exact hx (htaken x (h.globals.names' x hne))
  · exact hx (htaken x (h.scope.names' x hne))

/-- A list that a variable holds is there. -/
theorem State.Agree.lt_of_lookup {s s' : State} (h : s.Agree S V P c s') {x : String} (hx : ¬ V.Hides x)
    (hlookup : s.lookup x = some v) (ref : Ref) (hv : v = .list ref) : ref < s.heap.size := by
  have hfound := h.lookup hx
  rw [hlookup] at hfound
  generalize s'.lookup x = found at hfound
  cases hfound with
  | some hagree =>
    subst hv
    cases hagree with
    | list hr => exact (h.heap.lt hr).1

/-- What is known before the length is taken. -/
def Assumption.measured (taken : List String) (name : String) (v v' : Value) (i : Int64) : Assumption where
  holds _ s s' := (s.Leaves taken ∧ s.lookup name = some v ∧ s.HasLength v i) ∧
    s'.Leaves taken ∧ s'.lookup name = some v' ∧ s'.HasLength v' i
  mono _ := id
  meter := by
    rintro P s s' t t' hs hs' ⟨⟨hleaves, hlookup, hlength⟩, hleaves', hlookup', hlength'⟩
    have hsame : s.SameLengths (fun _ => False) t := .of_sameButMeter hs
    have hsame' : s'.SameLengths (fun _ => False) t' := .of_sameButMeter hs'
    refine ⟨⟨hsame.leaves hleaves fun _ => False.elim, ?_, hsame.hasLength hlength⟩, ?_, ?_, hsame'.hasLength hlength'⟩
    · rw [hsame.scopes.lookup_eq id, hlookup]
    · exact hsame'.leaves hleaves' fun _ => False.elim
    · rw [hsame'.scopes.lookup_eq id, hlookup']

/-- The second run takes the length and keeps it. -/
theorem Assumption.takeLength (hlen : "len" ∉ N.taken) (htaken : fresh ∈ N.taken) (hnames : S.names fresh)
    (hhidden : V.top fresh) (l k k' : Label) {n : Exec γ} {n' : Exec δ}
    (h : Alike S ((length N.taken name fresh v i).Within S V P c) post n n') :
    Alike S ((measured N.taken name v v' i).Within S V P (c + 4)) post n (do
      let w ← (Expr.call l (.name k "len") [.name k' name]).eval ⟨S.budget', call'⟩
      setVar fresh w
      n') := by
  rw [Expr.eval_length]
  simp only [bind_assoc]
  refine Assumption.payRight 1 (by simp) (Assumption.payRight 1 (by simp) ?_)
  refine Assumption.lookRight (w := .builtin .len) (fun _ _ _ hknown => hknown.2.1.lookup_eq hlen) ?_
  refine Assumption.payRight 1 (by simp) (Assumption.lookRight (fun _ _ _ hknown => hknown.2.2.1) ?_)
  rw [callValue_len]
  simp only [bind_assoc]
  refine Assumption.payRight 1 (by simp) ?_
  rintro s s' ⟨hagree, ⟨hleaves, hlookup, hlength⟩, hleaves', hlookup', hlength'⟩
  rw [run_bind_ok hlength'.run]
  have hput := hagree.putRight hnames (some (.int i)) V.top (fun y hy => .inr hy) fun hshown => absurd hhidden hshown
  rw [View.withTop_top] at hput
  refine h s (s'.updateScope fun scope => scope.put fresh (some (.int i)))
    ⟨hput.mono (by simp), ⟨hleaves, hlookup, hlength⟩, ?_, ?_⟩
  · intro x hx
    have hsame : s'.SameLengths (· ∈ N.taken) (s'.updateScope fun scope => scope.put fresh (some (.int i))) :=
      .put htaken _
    exact (hsame.leaves hleaves' fun y hy => hy) x hx
  · refine State.lookup_of_scope ?_
    rw [State.scope_updateScope, Scope.get?_put, if_pos rfl]

/-- A block that changes the length of no list, while a length is known. -/
theorem Block.simUnder (hname : ¬ N.changed name) (hfresh : ¬ N.changed fresh)
    (htame : ∀ node ∈ Block.nodes body, node.IsTame N False)
    (hself : Sim S V P c d (Flow.Agree S.labels) (Block.exec ⟨S.budget, call⟩ body)
      (Block.exec ⟨S.budget', call'⟩ body)) :
    SimUnder (.length N.taken name fresh v i) S V P c d (Flow.Agree S.labels) (Block.exec ⟨S.budget, call⟩ body)
      (Block.exec ⟨S.budget', call'⟩ body) :=
  hself.under (Assumption.length_survives hname hfresh (Block.exec_keepsLengths False.elim body htame)
    (Block.exec_keepsLengths False.elim body htame))

/-- A loop beside the one that takes the length before. -/
theorem Block.sim_hoistLength {l k k' k'' a target : Label} {reference : Label → Label} (hfaithful : ¬ S.faithful)
    (hextra : S.extra = 5) (htaken : ∀ x, S.names x → x ∈ N.taken) (hlen : "len" ∉ N.taken)
    (hname : ¬ N.changed name) (hfresh : ¬ N.changed fresh) (hnames : S.names fresh) (hhidden : V.top fresh)
    (hshown : ¬ V.Hides name) (htest : ∀ part ∈ test.subterms, part.Hoistable S V N)
    (halways : some name ∈ test.alwaysEvaluated.map Expr.lengthOf?)
    (htame : ∀ node ∈ Block.nodes body, node.IsTame N False)
    (hself : ∀ P c, Sim S V P c c (Flow.Agree S.labels) (Block.exec ⟨S.budget, call⟩ body)
      (Block.exec ⟨S.budget', call'⟩ body)) (P : Pairing) (c : Nat) :
    Sim S V P c c (Flow.Agree S.labels) (Block.exec ⟨S.budget, call⟩ [.whileLoop l test body])
      (Block.exec ⟨S.budget', call'⟩ [.assign a (.name target fresh) (.call k (.name k' "len") [.name k'' name]),
        .whileLoop l (test.hoist name fresh reference) body]) := by
  rw [Block.exec_singleton, Block.exec_initialized]
  refine (Step.earn 1).bind fun _ _ _ => ?_
  rintro s s' hagree
  obtain ⟨hleaves, hleaves'⟩ := hagree.leaves htaken
  by_cases hlength : ∃ v i, s.lookup name = some v ∧ s.HasLength v i
  · obtain ⟨v, i, hlookup, hlength⟩ := hlength
    have hfound := hagree.lookup hshown
    rw [hlookup] at hfound
    obtain ⟨v', hlookup', hv⟩ : ∃ v', s'.lookup name = some v' ∧ v.Agree S.labels P v' := by
      generalize s'.lookup name = found at hfound
      cases hfound with
      | some hv => exact ⟨_, rfl, hv⟩
    have hlength' := hagree.hasLength hv hlength
    have hloop : Alike S ((Assumption.measured N.taken name v v' i).Within S V P (c + 5))
        (fun flow flow' t t' => ∃ Q, P ≤ Q ∧ Flow.Agree S.labels Q flow flow' ∧ t.Agree S V Q c t')
        (whileRounds S.budget (test.eval ⟨S.budget, call⟩) (Block.exec ⟨S.budget, call⟩ body)
          (S.budget.fuel.toNat + 1))
        (do
          let w ← (Expr.call k (.name k' "len") [.name k'' name]).eval ⟨S.budget', call'⟩
          setVar fresh w
          (Stmt.whileLoop l (test.hoist name fresh reference) body).exec ⟨S.budget', call'⟩) := by
      refine Assumption.takeLength (c := c + 1) hlen (htaken _ hnames) hnames hhidden k k' k'' ?_
      rw [Stmt.exec]
      refine Assumption.payRight 1 (by simp) ?_
      have htests (P : Pairing) (c : Nat) : SimUnder (.length N.taken name fresh v i) S V P c c
          (Value.Agree S.labels) (test.eval ⟨S.budget, call⟩)
          ((test.hoist name fresh reference).eval ⟨S.budget', call'⟩) :=
        test.hoist_sim hfaithful hlen hname hfresh htest P c
      have hrounds := SimUnder.whileRounds htests
        (fun P c => Block.simUnder hname hfresh htame ((hself P c).spare (Nat.le_add_right ..)))
        (Nat.succ_le_succ S.fuel_le) P c
      refine Alike.imp hrounds fun flow flow' t t' ht => ?_
      obtain ⟨Q, hle, hflow, hwithin⟩ := ht
      exact ⟨Q, hle, hflow, hwithin.1⟩
    refine hloop s s' ⟨?_, ⟨hleaves, hlookup, hlength⟩, hleaves', hlookup', hlength'⟩
    rw [hextra] at hagree
    exact hagree
  · have hnone : s.NoLength name := by
      intro v hv
      have hlt := hagree.lt_of_lookup hshown hv
      exact ⟨hlt, fun i hrun => hlength ⟨v, i, hv, hlt, hrun⟩⟩
    have hneeds : NeedsLength N name (whileRounds S.budget (test.eval ⟨S.budget, call⟩)
        (Block.exec ⟨S.budget, call⟩ body) (S.budget.fuel.toNat + 1)) :=
      .next hname (.charge ..) fun _ =>
        (test.needsLength hlen hname (fun part hpart => (htest part hpart).tame) halways).first
    cases hrun : (whileRounds S.budget (test.eval ⟨S.budget, call⟩)
        (Block.exec ⟨S.budget, call⟩ body) (S.budget.fuel.toNat + 1)).run s with
    | error e t => exact fun hmust => absurd hmust hfaithful
    | ok flow t => exact absurd hrun (hneeds.fails s flow t hleaves hnone)

end

end ProgramBreeding

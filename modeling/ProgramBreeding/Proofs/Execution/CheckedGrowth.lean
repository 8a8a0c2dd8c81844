import ProgramBreeding.Execution.Session
import ProgramBreeding.Proofs.Execution.Growth
import ProgramBreeding.Proofs.Tree.Parts

/-!
# Programs whose lists stay within the limit

A program in which every operation checks what it builds never has a list beyond the limit,
wherever its runs are stopped.  Adding to a list in place is not checked: `+=` takes what `+`
refuses.

## Main definitions

* `Expr.isNeverList` — expressions that yield no list, as their form shows.
* `Node.isChecked` — nodes whose own step checks what it builds.
* `Program.Reachable` — the states of a session, at whatever point its runs are stopped.
* `Expr.eval_keepsLimit`, `Stmt.exec_keepsLimit`, `callFunction_keepsLimit` — what programs do.
* `Program.reachable_size_le` — the limit holds in every state that can be reached.
* `augment_of_refused` — what `+` refuses, `+=` does.

## Design notes

Fuel is spent before every step, and a run stops as soon as the budget says so.  The states at the
ends of runs under all budgets are therefore the states between the steps of runs.
-/

namespace ProgramBreeding

variable {α β : Type}

/-! ### Programs that check -/

/-- Whether an expression can yield no list, as its form shows. -/
def Expr.isNeverList : Expr Label → Bool
  | .constant .. | .unary .. | .compare .. => true
  | .binary _ .add left right => left.isNeverList || right.isNeverList
  | .binary _ .mul left right => left.isNeverList && right.isNeverList
  | .binary .. => true
  | .logic _ _ left right => left.isNeverList && right.isNeverList
  | _ => false

/-- Whether the step of an expression checks what it builds. -/
def Expr.isChecked : Expr Label → Bool
  | .name _ id => id != "str"
  | .constant _ (.str text) => text.length ≤ maxSequence
  | .list _ items => items.length ≤ maxSequence
  | .call _ (.attribute _ _ method) args => !isUncheckedCall method args.length
  | _ => true

/-- Whether the step of a statement checks what it builds. -/
def Stmt.isChecked : Stmt Label → Bool
  | .augAssign _ _ .add value => value.isNeverList
  | _ => true

/-- Whether the step of a node checks what it builds. -/
def Node.isChecked : Node Label → Bool
  | .stmt s => s.isChecked
  | .expr e => e.isChecked

mutual

/-- Plain data whose lists and texts are within the limit. -/
def Datum.InLimit : Datum → Prop
  | .str text => text.length ≤ maxSequence
  | .list items => items.length ≤ maxSequence ∧ Datum.AllInLimit items
  | _ => True

/-- Plain data, all of them within the limit. -/
def Datum.AllInLimit : List Datum → Prop
  | [] => True
  | d :: rest => d.InLimit ∧ Datum.AllInLimit rest

end

/-! ### Results that are no lists -/

/-- Whatever an action results in if it succeeds. -/
structure Returns (m : Exec α) (Q : α → Prop) : Prop where
  result : ∀ s a t, m.run s = .ok a t → Q a

namespace Returns

variable {m n : Exec α} {Q : α → Prop}

protected theorem pure {a : α} (ha : Q a) : Returns (pure a) Q := by
  refine ⟨fun s b t h => ?_⟩
  cases h
  exact ha

protected theorem raise (fault : Fault) : Returns (raise fault : Exec α) Q := ⟨nofun⟩

protected theorem bind {Q : β → Prop} {f : α → Exec β} {R : α → Prop} (hm : Returns m R)
    (hf : ∀ a, R a → Returns (f a) Q) : Returns (m >>= f) Q := by
  refine ⟨fun s b t h => ?_⟩
  rw [EStateM.run_bind] at h
  cases hrun : m.run s with
  | ok a t' =>
    rw [hrun] at h
    exact (hf a (hm.result s a t' hrun)).result t' b t h
  | error e t' =>
    rw [hrun] at h
    cases h

/-- Whatever the first action results in. -/
protected theorem andThen {Q : β → Prop} {f : α → Exec β} (hf : ∀ a, Returns (f a) Q) :
    Returns (m >>= f) Q :=
  .bind (R := fun _ => True) ⟨fun _ _ _ _ => trivial⟩ fun a _ => hf a

protected theorem ite {p : Prop} [Decidable p] (hm : Returns m Q) (hn : Returns n Q) :
    Returns (if p then m else n) Q := by
  split
  · exact hm
  · exact hn

theorem num_isNotList (n : Num) : n.toValue.kind ≠ .list := by cases n <;> exact nofun

protected theorem numberOp (op : BinaryOp) (a b : Value) :
    Returns (numberOp op a b) fun v => v.kind ≠ .list := by
  unfold numberOp
  split
  · exact .andThen fun n => .pure (num_isNotList n)
  · exact .raise _

protected theorem repeatText (text : String) (count : Int64) :
    Returns (repeatText text count) fun v => v.kind ≠ .list :=
  .andThen fun _ => .pure nofun

/-- Lists come of lists only. -/
protected theorem binaryOp {op : BinaryOp} {a b : Value}
    (hadd : op = .add → a.kind ≠ .list ∨ b.kind ≠ .list)
    (hmul : op = .mul → a.kind ≠ .list ∧ b.kind ≠ .list) :
    Returns (binaryOp op a b) fun v => v.kind ≠ .list := by
  unfold binaryOp
  split
  · exact .ite (.raise _) (.pure nofun)
  · exact absurd (hadd rfl) (by simp [Value.kind])
  · split
    · exact .repeatText ..
    · exact .numberOp ..
  · split
    · exact .repeatText ..
    · exact .numberOp ..
  · exact absurd rfl (hmul rfl).1
  · exact absurd rfl (hmul rfl).2
  · exact .numberOp ..

protected theorem signOp (op : UnaryOp) (a : Value) :
    Returns (signOp op a) fun v => v.kind ≠ .list := by
  unfold signOp
  split
  · exact .andThen fun _ => .pure nofun
  · unfold signValue
    split
    · exact .andThen fun n => .pure (num_isNotList n)
    · exact .raise _

end Returns

theorem Literal.kind_ne_list (literal : Literal) : (Value.ofLiteral literal).kind ≠ .list := by
  cases literal <;> exact nofun

/-- What its form says of an expression is so. -/
theorem Expr.eval_returns {env : Env} : ∀ {e : Expr Label}, e.isNeverList = true →
    Returns (e.eval env) fun v => v.kind ≠ .list
  | .constant _ value, _ => .andThen fun _ => .pure value.kind_ne_list
  | .unary .., _ => .andThen fun _ => .andThen fun _ => .signOp ..
  | .compare .., _ =>
    .andThen fun _ => .andThen fun _ => .andThen fun _ => .andThen fun _ => .andThen fun _ =>
      .pure nofun
  | .binary _ op left right, h => by
    refine .andThen fun _ => ?_
    cases op with
    | add =>
      obtain h | h := Bool.or_eq_true_iff.mp h
      · exact .bind (Expr.eval_returns h) fun a ha => .andThen fun b =>
          .binaryOp (fun _ => .inl ha) nofun
      · exact .andThen fun a => .bind (Expr.eval_returns h) fun b hb =>
          .binaryOp (fun _ => .inr hb) nofun
    | mul =>
      obtain ⟨hleft, hright⟩ := Bool.and_eq_true_iff.mp h
      exact .bind (Expr.eval_returns hleft) fun a ha => .bind (Expr.eval_returns hright) fun b hb =>
        .binaryOp nofun fun _ => ⟨ha, hb⟩
    | _ => exact .andThen fun a => .andThen fun b => .binaryOp nofun nofun
  | .logic _ op left right, h => by
    obtain ⟨hleft, hright⟩ := Bool.and_eq_true_iff.mp h
    exact .andThen fun _ => .bind (Expr.eval_returns hleft) fun a ha => .andThen fun _ =>
      .ite (.pure ha) (Expr.eval_returns hright)

/-! ### Loops -/

namespace KeepsLimit

variable {m : Exec α} {Q : α → Prop}

theorem and_returns {Q' : α → Prop} (h : KeepsLimit m Q) (h' : Returns m Q') :
    KeepsLimit m fun a => Q a ∧ Q' a := by
  refine ⟨fun s hs => ?_⟩
  have hend := h.ends s hs
  have hreturn := h'.result s
  generalize m.run s = r at hend hreturn
  cases hend with
  | ok ht ha => exact .ok ht ⟨ha, hreturn _ _ rfl⟩
  | error ht => exact .error ht

/-- A comprehension finds at most one element for every item. -/
protected theorem collect (budget : Budget) (var : String) {cond : Option (Exec Value)}
    {element : Exec Value} (hcond : ∀ c, cond = some c → KeepsLimit c Value.InLimit)
    (helement : KeepsLimit element Value.InLimit) {items : List Value}
    (hitems : ∀ v ∈ items, v.InLimit) : ∀ {found : List Value}, (∀ v ∈ found, v.InLimit) →
      KeepsLimit (collect budget var cond element found items) fun vs =>
        vs.length ≤ found.length + items.length ∧ ∀ v ∈ vs, v.InLimit := by
  induction items with
  | nil =>
    intro found hfound
    exact .pure ⟨by simp, fun v hv => hfound v (List.mem_reverse.mp hv)⟩
  | cons item rest ih =>
    intro found hfound
    obtain ⟨hitem, hrest⟩ := List.forall_mem_cons.mp hitems
    -- What follows is the same with a condition and without one.
    have hwanted (wanted : Bool) : KeepsLimit (if wanted then do
        let v ← element
        ProgramBreeding.collect budget var cond element (v :: found) rest
      else ProgramBreeding.collect budget var cond element found rest) fun vs =>
        vs.length ≤ found.length + (item :: rest).length ∧ ∀ v ∈ vs, v.InLimit := by
      refine .ite (fun _ => .bind helement fun v hv => ?_) fun _ => ?_
      · refine (ih hrest (List.forall_mem_cons.mpr ⟨hv, hfound⟩)).mono fun vs hvs => ⟨?_, hvs.2⟩
        have hlength := hvs.1
        simp only [List.length_cons] at hlength ⊢
        omega
      · refine (ih hrest hfound).mono fun vs hvs => ⟨?_, hvs.2⟩
        have hlength := hvs.1
        simp only [List.length_cons]
        omega
    refine .bind (.charge ..) fun _ _ => .bind (.setVar var hitem) fun _ _ => ?_
    cases cond with
    | none => exact .bind (.pure (Q := fun _ => True) trivial) fun wanted _ => hwanted wanted
    | some c => exact .bind (hcond c rfl) fun v _ => .bind (.truth v) fun wanted _ => hwanted wanted

protected theorem runComprehension (budget : Budget) (var : String) {cond : Option (Exec Value)}
    {element : Exec Value} (hcond : ∀ c, cond = some c → KeepsLimit c Value.InLimit)
    (helement : KeepsLimit element Value.InLimit) {source : Value} (hsource : source.InLimit) :
    KeepsLimit (runComprehension budget var cond element source) Value.InLimit := by
  refine .bind (.iterate hsource) fun items hitems =>
    .bind (.shielding (.collect budget var hcond helement hitems.values nofun)) fun found hfound =>
      .newList ⟨?_, hfound.2⟩
  exact (hfound.1.trans_eq (Nat.zero_add _)).trans hitems.length

protected theorem forRounds (budget : Budget) (var : String) {body : Exec Flow}
    (hbody : KeepsLimit body fun flow => flow.result.InLimit) {items : List Value}
    (hitems : ∀ v ∈ items, v.InLimit) :
    KeepsLimit (forRounds budget var body items) fun flow => flow.result.InLimit := by
  induction items with
  | nil => exact .pure True.intro
  | cons item rest ih =>
    obtain ⟨hitem, hrest⟩ := List.forall_mem_cons.mp hitems
    refine .bind (.charge ..) fun _ _ => .bind (.setVar var hitem) fun _ _ =>
      .bind hbody fun flow hflow => ?_
    cases flow with
    | brk => exact .pure True.intro
    | ret v => exact .pure hflow
    | next => exact ih hrest
    | cont => exact ih hrest

protected theorem whileRounds (budget : Budget) {test : Exec Value} {body : Exec Flow}
    (htest : KeepsLimit test Value.InLimit)
    (hbody : KeepsLimit body fun flow => flow.result.InLimit) (count : Nat) :
    KeepsLimit (whileRounds budget test body count) fun flow => flow.result.InLimit := by
  induction count with
  | zero => exact .throw _
  | succ count ih =>
    refine .bind (.charge ..) fun _ _ => .bind htest fun v _ => .bind (.truth v) fun _ _ =>
      .ite (fun _ => .bind hbody fun flow hflow => ?_) fun _ => .pure True.intro
    cases flow with
    | brk => exact .pure True.intro
    | ret v => exact .pure hflow
    | next => exact ih
    | cont => exact ih

end KeepsLimit

/-! ### Expressions -/

section

variable {budget : Budget} {call : Label → List Value → Exec Value}

/-- Calls that keep the limit. -/
def CallsKeepLimit (call : Label → List Value → Exec Value) : Prop :=
  ∀ (label : Label) (args : List Value), (∀ v ∈ args, v.InLimit) →
    KeepsLimit (call label args) Value.InLimit

theorem callValue_keepsLimit (hcall : CallsKeepLimit call) {callee : Value}
    (hcallee : callee.InLimit) {args : List Value} (hargs : ∀ v ∈ args, v.InLimit) :
    KeepsLimit (callValue ⟨budget, call⟩ callee args) Value.InLimit := by
  cases callee with
  | function label => exact hcall label args hargs
  | builtin b => exact .callBuiltin budget hcallee hargs
  | _ => exact .raise _

theorem Literal.inLimit_of_isChecked {label : Label} {literal : Literal}
    (h : (Expr.constant label literal).isChecked = true) : (Value.ofLiteral literal).InLimit := by
  cases literal with
  | str text =>
    show text.length ≤ maxSequence
    simpa only [Expr.isChecked, decide_eq_true_eq] using h
  | _ => exact True.intro

mutual

/-- Expressions that check what they build keep the limit. -/
theorem Expr.eval_keepsLimit (hcall : CallsKeepLimit call) : ∀ e : Expr Label,
    (∀ part ∈ e.subterms, part.isChecked = true) →
      KeepsLimit (e.eval ⟨budget, call⟩) Value.InLimit
  | .name _ id, h => by
    simp only [Expr.subterms, List.forall_mem_singleton] at h
    exact .bind (.charge ..) fun _ _ => .getVar (bne_iff_ne.mp h)
  | .constant _ literal, h => by
    simp only [Expr.subterms, List.forall_mem_singleton] at h
    exact .bind (.charge ..) fun _ _ => .pure (literal.inLimit_of_isChecked h)
  | .list _ items, h => by
    simp only [Expr.subterms, List.forall_mem_cons] at h
    refine .bind (.charge ..) fun _ _ => .bind (Expr.evalAll_keepsLimit hcall items h.2) fun vs hvs =>
      .newList ⟨?_, hvs.2⟩
    exact hvs.1.trans_le (of_decide_eq_true h.1)
  | .comprehension _ _ element x source none, h => by
    simp only [Expr.subterms, List.forall_mem_cons, List.forall_mem_append] at h
    have hnone : ∀ c, (none : Option (Exec Value)) = some c → KeepsLimit c Value.InLimit := nofun
    exact .bind (.charge ..) fun _ _ => .bind (source.eval_keepsLimit hcall h.2.1.2) fun v hv =>
      .runComprehension budget x hnone (element.eval_keepsLimit hcall h.2.1.1) hv
  | .comprehension _ _ element x source (some cond), h => by
    simp only [Expr.subterms, Expr.subtermsCond, List.forall_mem_cons, List.forall_mem_append] at h
    exact .bind (.charge ..) fun _ _ => .bind (source.eval_keepsLimit hcall h.2.1.2) fun v hv =>
      .runComprehension budget x (fun _ hc => Option.some.inj hc ▸ cond.eval_keepsLimit hcall h.2.2)
        (element.eval_keepsLimit hcall h.2.1.1) hv
  | .binary _ op left right, h => by
    simp only [Expr.subterms, List.forall_mem_cons, List.forall_mem_append] at h
    exact .bind (.charge ..) fun _ _ => .bind (left.eval_keepsLimit hcall h.2.1) fun a ha =>
      .bind (right.eval_keepsLimit hcall h.2.2) fun b hb => .binaryOp op ha hb
  | .unary _ op operand, h => by
    simp only [Expr.subterms, List.forall_mem_cons] at h
    exact .bind (.charge ..) fun _ _ => .bind (operand.eval_keepsLimit hcall h.2) fun a _ => .signOp op a
  | .logic _ op left right, h => by
    simp only [Expr.subterms, List.forall_mem_cons, List.forall_mem_append] at h
    exact .bind (.charge ..) fun _ _ => .bind (left.eval_keepsLimit hcall h.2.1) fun a ha =>
      .bind (.truth a) fun _ _ => .ite (fun _ => .pure ha) fun _ => right.eval_keepsLimit hcall h.2.2
  | .compare _ op left right, h => by
    simp only [Expr.subterms, List.forall_mem_cons, List.forall_mem_append] at h
    exact .bind (.charge ..) fun _ _ => .bind (left.eval_keepsLimit hcall h.2.1) fun a _ =>
      .bind (right.eval_keepsLimit hcall h.2.2) fun b _ => .bind .get fun _ _ =>
        .bind (.ofExcept _) fun _ _ => .pure True.intro
  | .call label callee args, h => by
    simp only [Expr.subterms, List.forall_mem_cons, List.forall_mem_append] at h
    obtain ⟨hself, hcallee, hargs⟩ := h
    have hevalArgs := Expr.evalAll_keepsLimit hcall args hargs
    have hevalCallee := callee.eval_keepsLimit hcall hcallee
    -- The attribute of a call is not evaluated itself: its value receives a call of a method.
    cases hattribute : callee.isAttribute with
    | true =>
      match callee with
      | .attribute _ value method =>
        simp only [Expr.subterms, List.forall_mem_cons] at hcallee
        simp only [Expr.isChecked, Bool.not_eq_true'] at hself
        exact .bind (.charge ..) fun _ _ => .bind (value.eval_keepsLimit hcall hcallee.2)
          fun receiver hreceiver => .bind hevalArgs fun vs hvs =>
            .callMethod budget hreceiver (hvs.1 ▸ hself) hvs.2
    | false =>
      rw [Expr.eval_call _ _ _ hattribute]
      exact .bind (.charge ..) fun _ _ => .bind hevalCallee fun f hf => .bind hevalArgs fun vs hvs =>
        callValue_keepsLimit hcall hf hvs.2
  | .attribute .., _ => .bind (.charge ..) fun _ _ => .raise _
  | .subscript _ value index, h => by
    simp only [Expr.subterms, List.forall_mem_cons, List.forall_mem_append] at h
    exact .bind (.charge ..) fun _ _ => .bind (value.eval_keepsLimit hcall h.2.1) fun a _ =>
      .bind (index.eval_keepsLimit hcall h.2.2) fun b _ => .elementAt a b

theorem Expr.evalAll_keepsLimit (hcall : CallsKeepLimit call) : ∀ es : List (Expr Label),
    (∀ part ∈ Expr.subtermsAll es, part.isChecked = true) →
      KeepsLimit (Expr.evalAll ⟨budget, call⟩ es) fun vs =>
        vs.length = es.length ∧ ∀ v ∈ vs, v.InLimit
  | [], _ => .pure ⟨rfl, nofun⟩
  | e :: rest, h => by
    simp only [Expr.subtermsAll, List.forall_mem_append] at h
    exact .bind (e.eval_keepsLimit hcall h.1) fun v hv =>
      .bind (Expr.evalAll_keepsLimit hcall rest h.2) fun vs hvs =>
        .pure ⟨congrArg (· + 1) hvs.1, List.forall_mem_cons.mpr ⟨hv, hvs.2⟩⟩

end

/-! ### Statements -/

theorem store_keepsLimit (hcall : CallsKeepLimit call) {value : Value} (hvalue : value.InLimit)
    {target : Expr Label} (htarget : ∀ part ∈ target.subterms, part.isChecked = true) :
    KeepsLimit (store ⟨budget, call⟩ value target) fun _ => True := by
  cases target with
  | name label id => exact .setVar id hvalue
  | subscript label container index =>
    simp only [Expr.subterms, List.forall_mem_cons, List.forall_mem_append] at htarget
    exact .bind (container.eval_keepsLimit hcall htarget.2.1) fun a _ =>
      .bind (index.eval_keepsLimit hcall htarget.2.2) fun b _ => .storeItem a b hvalue
  | _ => exact .raise _

/-- Unless a list is added in place, what is combined is checked. -/
theorem augment_keepsLimit (hcall : CallsKeepLimit call) {target : Expr Label}
    (htarget : ∀ part ∈ target.subterms, part.isChecked = true) {op : BinaryOp}
    {current operand : Value} (hcurrent : current.InLimit) (hoperand : operand.InLimit)
    (hkind : op = .add → operand.kind ≠ .list) :
    KeepsLimit (augment ⟨budget, call⟩ target op current operand) fun _ => True := by
  unfold augment
  split
  · -- The one case without a check: a list is added to a list in place.
    exact absurd rfl (hkind rfl)
  · exact .bind (.binaryOp _ hcurrent hoperand) fun _ hresult => store_keepsLimit hcall hresult htarget

mutual

/-- Statements that check what they build keep the limit. -/
theorem Stmt.exec_keepsLimit (hcall : CallsKeepLimit call) : ∀ s : Stmt Label,
    (∀ n ∈ s.nodes, n.isChecked = true) →
      KeepsLimit (s.exec ⟨budget, call⟩) fun flow => flow.result.InLimit
  | .functionDef label name _ _, _ =>
    have hfunction : (Value.function label).InLimit := True.intro
    .bind (.charge ..) fun _ _ => .bind (.setVar name hfunction) fun _ _ => .pure True.intro
  | .ret _ none, _ => .bind (.charge ..) fun _ _ => .pure True.intro
  | .ret _ (some value), h => by
    simp only [Stmt.nodes, List.forall_mem_cons, Expr.forall_mem_nodes] at h
    exact .bind (.charge ..) fun _ _ => .bind (value.eval_keepsLimit hcall h.2) fun _ hv => .pure hv
  | .assign _ target value, h => by
    simp only [Stmt.nodes, List.forall_mem_cons, List.forall_mem_append, Expr.forall_mem_nodes] at h
    exact .bind (.charge ..) fun _ _ => .bind (value.eval_keepsLimit hcall h.2.2) fun _ hv =>
      .bind (store_keepsLimit hcall hv h.2.1) fun _ _ => .pure True.intro
  | .augAssign _ target op value, h => by
    simp only [Stmt.nodes, List.forall_mem_cons, List.forall_mem_append, Expr.forall_mem_nodes] at h
    have hoperand : KeepsLimit (value.eval ⟨budget, call⟩) fun v =>
        v.InLimit ∧ (op = .add → v.kind ≠ .list) := by
      cases op with
      | add =>
        exact ((value.eval_keepsLimit hcall h.2.2).and_returns (Expr.eval_returns h.1)).mono
          fun _ hv => ⟨hv.1, fun _ => hv.2⟩
      | _ => exact (value.eval_keepsLimit hcall h.2.2).mono fun _ hv => ⟨hv, nofun⟩
    exact .bind (.charge ..) fun _ _ => .bind (target.eval_keepsLimit hcall h.2.1) fun _ hcurrent =>
      .bind hoperand fun _ hv => .bind (augment_keepsLimit hcall h.2.1 hcurrent hv.1 hv.2) fun _ _ =>
        .pure True.intro
  | .forLoop _ var source body, h => by
    simp only [Stmt.nodes, List.forall_mem_cons, List.forall_mem_append, Expr.forall_mem_nodes] at h
    exact .bind (.charge ..) fun _ _ => .bind (source.eval_keepsLimit hcall h.2.1) fun _ hv =>
      .bind (.iterate hv) fun _ hitems =>
        .forRounds budget var (Block.exec_keepsLimit hcall body h.2.2) hitems.values
  | .whileLoop _ test body, h => by
    simp only [Stmt.nodes, List.forall_mem_cons, List.forall_mem_append, Expr.forall_mem_nodes] at h
    exact .bind (.charge ..) fun _ _ => .whileRounds budget (test.eval_keepsLimit hcall h.2.1)
      (Block.exec_keepsLimit hcall body h.2.2) _
  | .ifElse _ test body orelse, h => by
    simp only [Stmt.nodes, List.forall_mem_cons, List.forall_mem_append, Expr.forall_mem_nodes] at h
    exact .bind (.charge ..) fun _ _ => .bind (test.eval_keepsLimit hcall h.2.1.1) fun v _ =>
      .bind (.truth v) fun _ _ => .ite (fun _ => Block.exec_keepsLimit hcall body h.2.1.2)
        fun _ => Block.exec_keepsLimit hcall orelse h.2.2
  | .expr _ value, h => by
    simp only [Stmt.nodes, List.forall_mem_cons, Expr.forall_mem_nodes] at h
    have hvalue : KeepsLimit (discard (value.eval ⟨budget, call⟩)) fun _ => True :=
      .bind (value.eval_keepsLimit hcall h.2) fun _ _ => .pure trivial
    exact .bind (.charge ..) fun _ _ => .bind hvalue fun _ _ => .pure True.intro
  | .pass _, _ => .bind (.charge ..) fun _ _ => .pure True.intro
  | .brk _, _ => .bind (.charge ..) fun _ _ => .pure True.intro
  | .cont _, _ => .bind (.charge ..) fun _ _ => .pure True.intro

theorem Block.exec_keepsLimit (hcall : CallsKeepLimit call) : ∀ body : List (Stmt Label),
    (∀ n ∈ Block.nodes body, n.isChecked = true) →
      KeepsLimit (Block.exec ⟨budget, call⟩ body) fun flow => flow.result.InLimit
  | [], _ => .pure True.intro
  | s :: rest, h => by
    simp only [Block.nodes, List.forall_mem_append] at h
    refine .bind (s.exec_keepsLimit hcall h.1) fun flow hflow => ?_
    cases flow with
    | next => exact Block.exec_keepsLimit hcall rest h.2
    | ret v => exact .pure hflow
    | brk => exact .pure True.intro
    | cont => exact .pure True.intro

end

end

/-! ### Functions -/

mutual

theorem Stmt.nodes_of_mem_functions {entry : Label × FunctionDef} : ∀ {s : Stmt Label},
    entry ∈ s.functions → Block.nodes entry.2.body ⊆ s.nodes
  | .functionDef label name params body, h => by
    obtain rfl | h := List.mem_cons.mp h
    · exact List.subset_cons_self ..
    · exact List.subset_cons_of_subset _ (Block.nodes_of_mem_functions h)
  | .forLoop _ _ source body, h | .whileLoop _ source body, h =>
    List.subset_cons_of_subset _ (List.subset_append_of_subset_right _ (Block.nodes_of_mem_functions h))
  | .ifElse _ test body orelse, h => by
    refine List.subset_cons_of_subset _ ?_
    obtain h | h := List.mem_append.mp h
    · exact List.subset_append_of_subset_left _
        (List.subset_append_of_subset_right _ (Block.nodes_of_mem_functions h))
    · exact List.subset_append_of_subset_right _ (Block.nodes_of_mem_functions h)

theorem Block.nodes_of_mem_functions {entry : Label × FunctionDef} : ∀ {body : List (Stmt Label)},
    entry ∈ Block.functions body → Block.nodes entry.2.body ⊆ Block.nodes body
  | s :: rest, h => by
    obtain h | h := List.mem_append.mp h
    · exact List.subset_append_of_subset_left _ (Stmt.nodes_of_mem_functions h)
    · exact List.subset_append_of_subset_right _ (Block.nodes_of_mem_functions h)

end

/-- By induction on how many calls may still be nested. -/
theorem callFunction_keepsLimit {functions : List (Label × FunctionDef)}
    (hfunctions : ∀ entry ∈ functions, ∀ n ∈ Block.nodes entry.2.body, n.isChecked = true)
    (budget : Budget) (depth : Nat) : CallsKeepLimit (callFunction functions budget depth) := by
  induction depth with
  | zero =>
    intro label args _
    unfold callFunction
    split
    · exact .raise _
    · exact .ite (fun _ => .raise _) fun _ => .throw _
  | succ depth ih =>
    intro label args hargs
    unfold callFunction
    split
    · exact .raise _
    · rename_i f hf
      obtain ⟨before, after, rfl, -⟩ := List.lookup_eq_some_iff.mp hf
      have hbody := hfunctions (label, f) (by simp)
      have hframe : ∀ entry ∈ f.params.zip args, entry.2.InLimit :=
        fun entry hentry => hargs _ (List.of_mem_zip hentry).2
      exact .ite (fun _ => .raise _) fun _ =>
        .bind (.inFrame hframe (Block.exec_keepsLimit ih f.body hbody)) fun _ hflow => .pure hflow

/-! ### Sessions -/

mutual

protected theorem KeepsLimit.ofDatum : ∀ {d : Datum}, d.InLimit →
    KeepsLimit (Value.ofDatum d) Value.InLimit
  | .none, _ | .bool _, _ | .int _, _ | .float _, _ => .pure True.intro
  | .str _, h => .pure h
  | .list items, h => by
    refine .bind (KeepsLimit.ofData h.2) fun vs hvs => .newList ⟨?_, hvs.2⟩
    exact hvs.1.trans_le h.1

protected theorem KeepsLimit.ofData : ∀ {ds : List Datum}, Datum.AllInLimit ds →
    KeepsLimit (Value.ofData ds) fun vs => vs.length = ds.length ∧ ∀ v ∈ vs, v.InLimit
  | [], _ => .pure ⟨rfl, nofun⟩
  | _ :: _, h => .bind (KeepsLimit.ofDatum h.1) fun _ hv => .bind (KeepsLimit.ofData h.2) fun _ hvs =>
    .pure ⟨congrArg (· + 1) hvs.1, List.forall_mem_cons.mpr ⟨hv, hvs.2⟩⟩

end

namespace Program

/-- The states of a session with data within the limit: the program is loaded and functions are
called, and every run goes on to its end or to the point where its budget stops it. -/
inductive Reachable (p : Program) : State → Prop
  | start : Reachable p {}
  | load {s : State} (budget : Budget) (h : Reachable p s) :
      Reachable p (endState ((p.load budget).run s))
  | call {s : State} (budget : Budget) (name : String) {args : List Datum}
      (hargs : Datum.AllInLimit args) (h : Reachable p s) :
      Reachable p (endState ((p.call budget name args).run s))

section

variable {t : Tree} (hchecked : ∀ n ∈ Block.nodes t.body, n.isChecked = true)

include hchecked

theorem callsKeepLimit (budget : Budget) : CallsKeepLimit ((ofTree t).env budget).call :=
  callFunction_keepsLimit
    (fun _ hentry n hn => hchecked n (Block.nodes_of_mem_functions hentry hn)) budget _

theorem load_keepsLimit (budget : Budget) : KeepsLimit ((ofTree t).load budget) fun _ => True :=
  .bind (Block.exec_keepsLimit (callsKeepLimit hchecked budget) t.body hchecked) fun _ _ =>
    .pure trivial

theorem call_keepsLimit (budget : Budget) (name : String) {args : List Datum}
    (hargs : Datum.AllInLimit args) :
    KeepsLimit ((ofTree t).call budget name args) fun _ => True := by
  refine .bind .get fun s _ => ?_
  split
  · exact .bind (.ofData hargs) fun vs hvs =>
      .bind (callsKeepLimit hchecked budget _ vs hvs.2) fun _ _ =>
        .bind .get fun _ _ => (KeepsLimit.ofExcept _).mono fun _ _ => trivial
  · exact .raise _

theorem Reachable.inLimit {s : State} (h : (ofTree t).Reachable s) : s.InLimit := by
  induction h with
  | start => exact .start
  | load budget _ ih => exact ((load_keepsLimit hchecked budget).ends _ ih).inLimit
  | call budget name hargs _ ih =>
    exact ((call_keepsLimit hchecked budget name hargs).ends _ ih).inLimit

/-- In every state that a session of a program can reach in which all operations check what they
build, no list has more elements than the limit allows. -/
theorem reachable_size_le {s : State} (h : (ofTree t).Reachable s) (ref : Ref) :
    (s.heap.items ref).size ≤ maxSequence :=
  (h.inLimit hchecked).items ref |>.length

end

/-- A program that checks what it builds: `def f(xs):` with `xs.append(sum(xs))`,
`n = len(xs)`, `n += 1` and `return xs * n`. -/
def appending : Tree :=
  .ofBlock 0 [.functionDef 0 "f" ["xs"]
    [.expr 0 (.call 0 (.attribute 0 (.name 0 "xs") "append") [.call 0 (.name 0 "sum") [.name 0 "xs"]]),
      .assign 0 (.name 0 "n") (.call 0 (.name 0 "len") [.name 0 "xs"]),
      .augAssign 0 (.name 0 "n") .add (.constant 0 (.int 1)),
      .ret 0 (some (.binary 0 .mul (.name 0 "xs") (.name 0 "n")))]]

theorem reachable_size_le_appending :
    (∀ n ∈ Block.nodes appending.body, n.isChecked = true) ∧
      ∃ s, (ofTree appending).Reachable s ∧ (s.heap.items 1).size = 12 ∧
        ∀ ref, (s.heap.items ref).size ≤ maxSequence := by
  have hchecked : ∀ n ∈ Block.nodes appending.body, n.isChecked = true := by decide
  have hargs : Datum.AllInLimit [.list [.int 1, .int 2]] :=
    ⟨⟨by decide, True.intro, True.intro, True.intro⟩, True.intro⟩
  have hreach := (Reachable.start (p := ofTree appending)).load { fuel := 100 }
    |>.call { fuel := 100 } "f" hargs
  exact ⟨hchecked, _, hreach, by decide +kernel, reachable_size_le hchecked hreach⟩

end Program

/-! ### Adding in place -/

/-- What `+` refuses because it would be too long, `+=` puts into the first list. -/
theorem augment_of_refused (env : Env) (target : Expr Label) {x y : Ref} {s : State}
    (hx : x < s.heap.size) (hrefused : maxSequence < (s.heap.items x).size + (s.heap.items y).size) :
    (binaryOp .add (.list x) (.list y)).run s = .error (.fault .sequenceTooLarge) s ∧
      ∃ t, (augment env target .add (.list x) (.list y)).run s = .ok () t ∧
        (t.heap.items x).size = (s.heap.items x).size + (s.heap.items y).size := by
  refine ⟨?_, _, rfl, ?_⟩
  · have hlong : maxSequence < (s.heap.items x ++ s.heap.items y).size := by rwa [Array.size_append]
    have hx : (itemsOf x).run s = .ok (s.heap.items x) s := rfl
    have hy : (itemsOf y).run s = .ok (s.heap.items y) s := rfl
    rw [binaryOp, run_bind_ok hx, run_bind_ok hy, if_pos hlong]
    rfl
  · rw [Heap.items_modify, if_pos ⟨rfl, hx⟩, Array.size_append]

/-- A program that adds an item in place to a list of the greatest length: `def f(n):` with
`xs = range(1048576)`, `xs += [0]` and `return len(xs)`. -/
def overlong : Tree :=
  .ofBlock 0 [.functionDef 0 "f" ["n"]
    [.assign 0 (.name 0 "xs") (.call 0 (.name 0 "range") [.constant 0 (.int 1048576)]),
      .augAssign 0 (.name 0 "xs") .add (.list 0 [.constant 0 (.int 0)]),
      .ret 0 (some (.call 0 (.name 0 "len") [.name 0 "xs"]))]]

/-- The fuel is that of the first two statements, so the run stops before the third. -/
theorem Program.not_reachable_size_le : ¬ ∀ (t : Tree) (s : State), (ofTree t).Reachable s →
    ∀ ref, (s.heap.items ref).size ≤ maxSequence := by
  intro h
  let budget : Budget := { fuel := 262154 }
  -- No step of this run looks into the list, so it is evaluated without making a million items.
  have hrun : ∃ s, ((ofTree overlong).load budget).run {} = .ok () s ∧
      ∃ t, ((ofTree overlong).call budget "f" [.int 0]).run s = .error (.outOfFuel 262154) t ∧
        t.heap.items 0 = arithmeticRange 0 1 1048576 ++ #[.int 0] := ⟨_, rfl, _, rfl, rfl⟩
  obtain ⟨s, hload, t, hcall, hitems⟩ := hrun
  have hargs : Datum.AllInLimit [.int 0] := ⟨True.intro, True.intro⟩
  have hs : (ofTree overlong).Reachable s := by
    simpa only [hload, endState] using Reachable.start (p := ofTree overlong) |>.load budget
  have ht : (ofTree overlong).Reachable t := by
    simpa only [hcall, endState] using hs.call budget "f" hargs
  have hle := h overlong t ht 0
  rw [hitems] at hle
  simp [arithmeticRange, maxSequence] at hle

end ProgramBreeding

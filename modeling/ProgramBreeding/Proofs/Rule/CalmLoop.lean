import ProgramBreeding.Proofs.Execution.Lengths
import ProgramBreeding.Proofs.Rule.HoistedLength

/-!
# Programs that change the length of no list

What a program does to the lengths of lists can be told from its text, as long as it calls built-in functions only,
or functions of which the same can be told.

## Main definitions

* `Expr.yieldsNoList` — expressions whose values are no lists.
* `Node.isCalm`, `Node.callsBuiltins` — what such a program may say.
* `Expr.eval_keepsLengths`, `Block.exec_keepsLengths` — what it does then.

## Design notes

A list that is added to another one extends it in place, and nothing is known of what a variable holds.  So an
augmented addition is calm if what it adds is no list.
-/

namespace ProgramBreeding

variable {α β : Type}

/-! ### Calm programs -/

/-- Built-in functions whose results are no lists. -/
def plainFunctions : List String := ["len", "abs", "int", "float", "str", "bool", "any", "all"]

/-- Whether the values of an expression are no lists, where some names are taken. -/
def Expr.yieldsNoList (taken : List String) : Expr α → Bool
  | .constant .. | .unary .. | .compare .. => true
  | .binary _ op left right =>
    if op = .add then left.yieldsNoList taken || right.yieldsNoList taken
    else op != .mul || left.yieldsNoList taken && right.yieldsNoList taken
  | .logic _ _ left right => left.yieldsNoList taken && right.yieldsNoList taken
  | .call _ (.name _ f) _ => plainFunctions.contains f && !taken.contains f
  | _ => false

/-- Whether a node changes the length of no list itself, and defines no function that does. -/
def Node.isCalm (taken : List String) : Node α → Bool
  | .expr (.call _ (.attribute _ _ method) _) => !resizingMethods.contains method
  | .stmt (.augAssign _ _ op value) => op != .add || value.yieldsNoList taken
  | .stmt (.functionDef ..) => false
  | _ => true

/-- Whether a node calls nothing but methods and functions whose names are not taken. -/
def Node.callsBuiltins (taken : List String) : Node α → Bool
  | .expr (.call _ callee _) =>
    match callee with
    | .name _ f => (Builtin.ofName? f).isSome && !taken.contains f
    | .attribute .. => true
    | _ => false
  | _ => true

theorem Node.exists_name_of_callsBuiltins {taken : List String} {l : Label} {callee : Expr Label}
    {args : List (Expr Label)} (h : (Node.expr (.call l callee args)).callsBuiltins taken = true)
    (hattribute : callee.isAttribute = false) : ∃ k f, callee = .name k f ∧ f ∉ taken := by
  match callee, h, hattribute with
  | .name k f, h, _ =>
    simp only [callsBuiltins, Bool.and_eq_true] at h
    exact ⟨k, f, rfl, by simpa using h.2⟩

theorem Expr.exists_of_isAttribute {e : Expr Label} (h : e.isAttribute = true) :
    ∃ l value method, e = .attribute l value method := by
  match e, h with
  | .attribute l value method, _ => exact ⟨l, value, method, rfl⟩

/-- A node of a program that changes the length of no list, if its calls do not or if it calls built-in functions
only. -/
structure Node.IsTame (N : NameUse) (calls : Prop) (node : Node Label) : Prop where
  calm : node.isCalm N.taken = true
  bound : ∀ x ∈ node.boundNames, N.changed x
  called : calls ∨ node.callsBuiltins N.taken = true

/-! ### Values that are no lists -/

/-- An action that yields no list. -/
structure Plain (m : Exec Value) : Prop where
  ends : ∀ s v t, m.run s = .ok v t → ∀ ref, v ≠ .list ref

namespace Plain

protected theorem pure {v : Value} (h : ∀ ref, v ≠ .list ref) : Plain (pure v) := by
  refine ⟨fun s w t hrun => ?_⟩
  cases hrun
  exact h

protected theorem raise (fault : Fault) : Plain (raise fault) := by
  refine ⟨fun s v t hrun => ?_⟩
  cases hrun

protected theorem bind {m : Exec α} {f : α → Exec Value} (h : ∀ a, Plain (f a)) : Plain (m >>= f) := by
  refine ⟨fun s v t hrun => ?_⟩
  obtain ⟨a, u, -, hrest⟩ := run_bind_eq_ok hrun
  exact (h a).ends u v t hrest

protected theorem ite {p : Prop} [Decidable p] {m n : Exec Value} (hm : Plain m) (hn : Plain n) :
    Plain (if p then m else n) := by
  split
  · exact hm
  · exact hn

theorem toValue (n : Num) : Plain (pure n.toValue) := .pure fun ref => by cases n <;> simp [Num.toValue]

protected theorem numberOp (op : BinaryOp) (a b : Value) : Plain (numberOp op a b) := by
  unfold numberOp
  split
  · exact .bind fun _ => toValue _
  · exact .raise _

protected theorem repeatText (text : String) (count : Int64) : Plain (repeatText text count) :=
  .bind fun _ => .pure fun ref => by simp

protected theorem signOp (op : UnaryOp) (a : Value) : Plain (signOp op a) := by
  have hsign (op : UnaryOp) : Plain (signValue op a) := by
    unfold signValue
    split
    · exact .bind fun _ => toValue _
    · exact .raise _
  cases op with
  | not => exact .bind fun _ => .pure fun ref => by simp
  | _ => exact hsign _

protected theorem countValue (n : Nat) : Plain (countValue n) := by
  unfold countValue
  split
  · exact .pure fun ref => by simp
  · exact .raise _

/-- A sum of which one part is no list. -/
theorem add {a b : Value} (h : (∀ ref, a ≠ .list ref) ∨ ∀ ref, b ≠ .list ref) : Plain (binaryOp .add a b) := by
  unfold binaryOp
  split
  · exact .ite (.raise _) (.pure fun ref => by simp)
  · exact (h.elim (fun h => h _ rfl) fun h => h _ rfl).elim
  all_goals first | exact .numberOp .. | exact absurd ‹BinaryOp.add = .mul› (by simp)

theorem other {op : BinaryOp} (hadd : op ≠ .add) {a b : Value}
    (h : op = .mul → (∀ ref, a ≠ .list ref) ∧ ∀ ref, b ≠ .list ref) : Plain (binaryOp op a b) := by
  unfold binaryOp
  split
  · exact absurd rfl hadd
  · exact absurd rfl hadd
  · split
    · exact .repeatText ..
    · exact .numberOp ..
  · split
    · exact .repeatText ..
    · exact .numberOp ..
  · exact ((h rfl).1 _ rfl).elim
  · exact ((h rfl).2 _ rfl).elim
  · exact .numberOp ..

/-- Some built-in functions yield no lists. -/
theorem callBuiltin {f : String} (hf : f ∈ plainFunctions) {b : Builtin} (hb : Builtin.ofName? f = some b)
    (budget : Budget) (args : List Value) : Plain (callBuiltin budget b args) := by
  simp only [plainFunctions, List.mem_cons, List.not_mem_nil, or_false] at hf
  rcases hf with rfl | rfl | rfl | rfl | rfl | rfl | rfl | rfl <;> cases hb
  · refine .bind fun _ => .bind fun _ => ?_
    cases args.headD .none with
    | list ref => exact .bind fun _ => .countValue _
    | str text => exact .countValue _
    | _ => exact .raise _
  · refine .bind fun _ => .bind fun _ => ?_
    unfold absolute
    split
    · exact .pure fun ref => by simp
    · split
      · exact .raise _
      · split
        · exact .pure fun ref => by simp
        · exact .raise _
  · refine .bind fun _ => .bind fun _ => ?_
    cases args with
    | nil => exact .pure fun ref => by simp
    | cons v rest =>
      show Plain (toInteger v)
      unfold toInteger
      split <;> split
      all_goals first | exact .raise _ | exact .pure fun ref => by simp
  · refine .bind fun _ => .bind fun _ => ?_
    cases args with
    | nil => exact .pure fun ref => by simp
    | cons v rest =>
      show Plain (toDouble v)
      unfold toDouble
      split
      · exact .pure fun ref => by simp
      all_goals split
      all_goals first | exact .raise _ | exact .pure fun ref => by simp
  · exact .bind fun _ => .bind fun _ => .bind fun _ => .pure fun ref => by simp
  · refine .bind fun _ => .bind fun _ => ?_
    cases args with
    | nil => exact .pure fun ref => by simp
    | cons v rest => exact .bind fun _ => .pure fun ref => by simp
  · exact .bind fun _ => .bind fun _ => .pure fun ref => by simp
  · exact .bind fun _ => .bind fun _ => .pure fun ref => by simp

end Plain

/-! ### What calm programs do -/

section

variable {N : NameUse} {calls : Prop} {env : Env}

/-- What comes after an action may depend on how the action went. -/
theorem KeepsLengths.bindRun {m : Exec α} {f : α → Exec β} (hm : KeepsLengths N m)
    (hf : ∀ s a t, s.Leaves N.taken → m.run s = .ok a t → KeepsLengths N (f a)) : KeepsLengths N (m >>= f) := by
  refine ⟨fun s hs => ?_⟩
  have hend := hm.ends s hs
  rw [EStateM.run_bind]
  cases hrun : m.run s with
  | error e t =>
    rw [hrun] at hend
    exact hend
  | ok a t =>
    rw [hrun] at hend
    exact State.SameLengths.trans hend ((hf s a t hs hrun).ends t (hm.leaves hs hrun))

/-- A name that is not taken stands for a built-in function. -/
theorem getVar_eq_ok {f : String} (hf : f ∉ N.taken) {s t : State} {v : Value} (hs : s.Leaves N.taken)
    (hrun : (getVar f).run s = .ok v t) : ∃ b, Builtin.ofName? f = some b ∧ v = .builtin b := by
  unfold getVar at hrun
  rw [run_bind_ok (show (get : Exec State).run s = .ok s s from rfl), hs.lookup_eq hf] at hrun
  cases hb : Builtin.ofName? f with
  | none =>
    rw [hb] at hrun
    cases hrun
  | some b =>
    rw [hb] at hrun
    cases hrun
    exact ⟨b, rfl, rfl⟩

theorem callValue_keepsLengths (hcall : ∀ l args, KeepsLengths N (env.call l args)) (f : Value) (args : List Value) :
    KeepsLengths N (callValue env f args) := by
  cases f with
  | function l => exact hcall l args
  | builtin b => exact .callBuiltin env.budget b args
  | _ => exact .raise _

/-- What holds of all parts of an expression holds of the parts of its operands. -/
theorem Expr.forall_child {p : Expr Label → Prop} {e part : Expr Label} (h : ∀ inner ∈ e.subterms, p inner)
    (hpart : part ∈ e.children) : ∀ inner ∈ part.subterms, p inner :=
  fun inner hinner => h inner (Expr.subterms_subset_of_mem_children hpart hinner)

mutual

theorem Expr.eval_keepsLengths (hcall : calls → ∀ l args, KeepsLengths N (env.call l args)) : ∀ e : Expr Label,
    (∀ part ∈ e.subterms, (Node.expr part).IsTame N calls) → KeepsLengths N (e.eval env)
  | .name .., _ => .bind (.charge ..) fun _ => .of_inspects (.getVar _)
  | .constant .., _ => .bind (.charge ..) fun _ => .pure _
  | .list _ items, h => .bind (.charge ..) fun _ =>
    .bind (Expr.evalAll_keepsLengths hcall items fun e he => Expr.forall_child h he) fun _ => .newList _
  | .comprehension _ _ element x source none, h => by
    have hx : N.changed x := (h _ (Expr.self_mem_subterms _)).bound x (List.mem_singleton_self x)
    refine .bind (.charge ..) fun _ => .bind (source.eval_keepsLengths hcall (Expr.forall_child h (by simp [children])))
      fun v => .runComprehension hx (fun c hc => ?_) ?_ v
    · cases hc
    · exact element.eval_keepsLengths hcall (Expr.forall_child h (by simp [children]))
  | .comprehension _ _ element x source (some cond), h => by
    have hx : N.changed x := (h _ (Expr.self_mem_subterms _)).bound x (List.mem_singleton_self x)
    refine .bind (.charge ..) fun _ => .bind (source.eval_keepsLengths hcall (Expr.forall_child h (by simp [children])))
      fun v => .runComprehension hx (fun c hc => ?_) ?_ v
    · exact Option.some.inj hc ▸ cond.eval_keepsLengths hcall (Expr.forall_child h (by simp [children]))
    · exact element.eval_keepsLengths hcall (Expr.forall_child h (by simp [children]))
  | .binary _ op left right, h => .bind (.charge ..) fun _ =>
    .bind (left.eval_keepsLengths hcall (Expr.forall_child h (by simp [children]))) fun _ =>
      .bind (right.eval_keepsLengths hcall (Expr.forall_child h (by simp [children]))) fun _ => .binaryOp ..
  | .unary _ op operand, h => .bind (.charge ..) fun _ =>
    .bind (operand.eval_keepsLengths hcall (Expr.forall_child h (by simp [children]))) fun _ =>
      .of_inspects (.signOp ..)
  | .logic _ op left right, h => .bind (.charge ..) fun _ =>
    .bind (left.eval_keepsLengths hcall (Expr.forall_child h (by simp [children]))) fun _ => .bind (.truth _) fun _ =>
      .ite (.pure _) (right.eval_keepsLengths hcall (Expr.forall_child h (by simp [children])))
  | .compare _ op left right, h => .bind (.charge ..) fun _ =>
    .bind (left.eval_keepsLengths hcall (Expr.forall_child h (by simp [children]))) fun _ =>
      .bind (right.eval_keepsLengths hcall (Expr.forall_child h (by simp [children]))) fun _ =>
        .of_inspects (.compare ..)
  | .call l callee args, h => by
    have hargs := Expr.evalAll_keepsLengths hcall args fun e he => Expr.forall_child h (by simp [children, he])
    have hcallee := callee.eval_keepsLengths hcall (Expr.forall_child h (by simp [children]))
    have htame := h _ (Expr.self_mem_subterms _)
    cases hattribute : callee.isAttribute with
    | true =>
      obtain ⟨k, value, method, rfl⟩ := Expr.exists_of_isAttribute hattribute
      have hmethod : method ∉ resizingMethods := by simpa [Node.isCalm] using htame.calm
      have hvalue := value.eval_keepsLengths hcall fun part hpart => h part (by simp [subterms, hpart])
      exact .bind (.charge ..) fun _ => .bind hvalue fun receiver => .bind hargs fun vs => .callMethod _ _ _ hmethod
    | false =>
      rw [Expr.eval_call _ _ _ hattribute]
      refine .bind (.charge ..) fun _ => ?_
      rcases htame.called with hcalls | hbuiltins
      · exact .bind hcallee fun f => .bind hargs fun vs => callValue_keepsLengths (hcall hcalls) f vs
      · obtain ⟨k, f, hname, hf⟩ := Node.exists_name_of_callsBuiltins hbuiltins hattribute
        rw [hname, Expr.eval, bind_assoc]
        refine .bind (.charge ..) fun _ => KeepsLengths.bindRun (.of_inspects (.getVar f)) fun s v t hs hrun => ?_
        obtain ⟨b, -, rfl⟩ := getVar_eq_ok hf hs hrun
        exact .bind hargs fun vs => .callBuiltin ..
  | .attribute .., _ => .bind (.charge ..) fun _ => .raise _
  | .subscript _ value index, h => .bind (.charge ..) fun _ =>
    .bind (value.eval_keepsLengths hcall (Expr.forall_child h (by simp [children]))) fun _ =>
      .bind (index.eval_keepsLengths hcall (Expr.forall_child h (by simp [children]))) fun _ =>
        .of_inspects (.elementAt ..)

theorem Expr.evalAll_keepsLengths (hcall : calls → ∀ l args, KeepsLengths N (env.call l args)) :
    ∀ es : List (Expr Label), (∀ e ∈ es, ∀ part ∈ e.subterms, (Node.expr part).IsTame N calls) →
      KeepsLengths N (Expr.evalAll env es)
  | [], _ => .pure _
  | e :: rest, h => .bind (e.eval_keepsLengths hcall (h e (List.mem_cons_self ..))) fun _ =>
    .bind (Expr.evalAll_keepsLengths hcall rest fun e he => h e (List.mem_cons_of_mem _ he)) fun _ => .pure _

end

/-- By recursion on the expression: one that never yields a list does not in a run that succeeds. -/
theorem Expr.not_list_of_yieldsNoList (hcall : calls → ∀ l args, KeepsLengths N (env.call l args)) :
    ∀ e : Expr Label, (∀ part ∈ e.subterms, (Node.expr part).IsTame N calls) → e.yieldsNoList N.taken = true →
      ∀ s v t, s.Leaves N.taken → (e.eval env).run s = .ok v t → ∀ ref, v ≠ .list ref
  | .constant _ value, _, _, s, v, t, _, hrun => by
    obtain ⟨_, u, -, hrest⟩ := run_bind_eq_ok hrun
    cases hrest
    intro ref
    cases value <;> simp [Value.ofLiteral]
  | .unary _ op operand, _, _, s, v, t, _, hrun => (Plain.bind fun _ => .bind fun _ => .signOp ..).ends s v t hrun
  | .compare _ op left right, _, _, s, v, t, _, hrun =>
    (Plain.bind fun _ => .bind fun _ => .bind fun _ => .bind fun _ => .bind fun _ =>
      .pure fun ref => by simp).ends s v t hrun
  | .binary _ op left right, h, hnever, s, v, t, hs, hrun => by
    obtain ⟨_, s₀, hcharge, hrun⟩ := run_bind_eq_ok hrun
    obtain ⟨a, s₁, hleft, hrun⟩ := run_bind_eq_ok hrun
    obtain ⟨b, s₂, hright, hrun⟩ := run_bind_eq_ok hrun
    have hleftTame : ∀ part ∈ left.subterms, (Node.expr part).IsTame N calls :=
      Expr.forall_child h (by simp [children])
    have hrightTame : ∀ part ∈ right.subterms, (Node.expr part).IsTame N calls :=
      Expr.forall_child h (by simp [children])
    have hs₀ : s₀.Leaves N.taken := (KeepsLengths.charge env.budget 1).leaves hs hcharge
    have hs₁ := (left.eval_keepsLengths hcall hleftTame).leaves hs₀ hleft
    have ha (hnever : left.yieldsNoList N.taken = true) :=
      left.not_list_of_yieldsNoList hcall hleftTame hnever s₀ a s₁ hs₀ hleft
    have hb (hnever : right.yieldsNoList N.taken = true) :=
      right.not_list_of_yieldsNoList hcall hrightTame hnever s₁ b s₂ hs₁ hright
    rw [yieldsNoList] at hnever
    split at hnever
    · rename_i hop
      subst hop
      exact (Plain.add ((Bool.or_eq_true_iff.mp hnever).imp ha hb)).ends s₂ v t hrun
    · rename_i hop
      refine (Plain.other hop fun hmul => ?_).ends s₂ v t hrun
      subst hmul
      simp only [bne_self_eq_false, Bool.false_or, Bool.and_eq_true] at hnever
      exact ⟨ha hnever.1, hb hnever.2⟩
  | .logic _ op left right, h, hnever, s, v, t, hs, hrun => by
    obtain ⟨_, s₀, hcharge, hrun⟩ := run_bind_eq_ok hrun
    obtain ⟨a, s₁, hleft, hrun⟩ := run_bind_eq_ok hrun
    obtain ⟨decided, s₂, htruth, hrun⟩ := run_bind_eq_ok hrun
    have hleftTame : ∀ part ∈ left.subterms, (Node.expr part).IsTame N calls :=
      Expr.forall_child h (by simp [children])
    have hrightTame : ∀ part ∈ right.subterms, (Node.expr part).IsTame N calls :=
      Expr.forall_child h (by simp [children])
    have hs₀ : s₀.Leaves N.taken := (KeepsLengths.charge env.budget 1).leaves hs hcharge
    have hs₁ := (left.eval_keepsLengths hcall hleftTame).leaves hs₀ hleft
    have hs₂ := (KeepsLengths.truth a).leaves hs₁ htruth
    simp only [yieldsNoList, Bool.and_eq_true] at hnever
    split at hrun
    · cases hrun
      exact left.not_list_of_yieldsNoList hcall hleftTame hnever.1 s₀ _ s₁ hs₀ hleft
    · exact right.not_list_of_yieldsNoList hcall hrightTame hnever.2 s₂ v t hs₂ hrun
  | .call _ (.name _ f) args, h, hnever, s, v, t, hs, hrun => by
    simp only [yieldsNoList, Bool.and_eq_true, List.contains_iff_mem, Bool.not_eq_true', ← Bool.not_eq_true] at hnever
    rw [Expr.eval_call _ _ _ rfl] at hrun
    obtain ⟨_, s₀, hcharge, hrun⟩ := run_bind_eq_ok hrun
    obtain ⟨callee, s₁, hcallee, hrun⟩ := run_bind_eq_ok hrun
    obtain ⟨_, s₂, hcharge', hcallee⟩ := run_bind_eq_ok hcallee
    have hs₀ : s₀.Leaves N.taken := (KeepsLengths.charge env.budget 1).leaves hs hcharge
    have hs₂ : s₂.Leaves N.taken := (KeepsLengths.charge env.budget 1).leaves hs₀ hcharge'
    obtain ⟨b, hb, rfl⟩ := getVar_eq_ok hnever.2 hs₂ hcallee
    have hcalls : Plain (do callValue env (.builtin b) (← Expr.evalAll env args)) :=
      .bind fun vs => Plain.callBuiltin hnever.1 hb env.budget vs
    exact hcalls.ends s₁ v t hrun

/-! ### Statements -/

theorem store_keepsLengths (hcall : calls → ∀ l args, KeepsLengths N (env.call l args)) (target : Expr Label)
    (h : ∀ part ∈ target.subterms, (Node.expr part).IsTame N calls) (hnames : ∀ x ∈ target.targetNames, N.changed x)
    (v : Value) : KeepsLengths N (store env v target) := by
  cases target with
  | name l x => exact .setVar v (hnames x (List.mem_singleton_self x))
  | subscript l container index =>
    exact .bind (container.eval_keepsLengths hcall (Expr.forall_child h (by simp [Expr.children]))) fun _ =>
      .bind (index.eval_keepsLengths hcall (Expr.forall_child h (by simp [Expr.children]))) fun _ => .storeItem ..
  | _ => exact .raise _

theorem augment_keepsLengths (hcall : calls → ∀ l args, KeepsLengths N (env.call l args)) (target : Expr Label)
    (h : ∀ part ∈ target.subterms, (Node.expr part).IsTame N calls) (hnames : ∀ x ∈ target.targetNames, N.changed x)
    {op : BinaryOp} {current operand : Value} (hoperand : op = .add → ∀ ref, operand ≠ .list ref) :
    KeepsLengths N (augment env target op current operand) := by
  rw [augment_eq env target fun _ _ hop _ => hoperand hop _]
  exact .bind (.binaryOp ..) fun v => store_keepsLengths hcall target h hnames v

mutual

theorem Stmt.exec_keepsLengths (hcall : calls → ∀ l args, KeepsLengths N (env.call l args)) : ∀ s : Stmt Label,
    (∀ node ∈ s.nodes, node.IsTame N calls) → KeepsLengths N (s.exec env)
  | .functionDef l name params body, h => .bind (.charge ..) fun _ =>
    .bind (.setVar _ ((h _ (List.mem_cons_self ..)).bound name (List.mem_cons_self ..))) fun _ => .pure _
  | .ret _ none, _ => .bind (.charge ..) fun _ => .pure _
  | .ret _ (some value), h => .bind (.charge ..) fun _ =>
    .bind (value.eval_keepsLengths hcall fun part hpart => h _ (by simp [Stmt.nodes, Expr.nodes, hpart])) fun _ =>
      .pure _
  | .assign _ target value, h => .bind (.charge ..) fun _ =>
    .bind (value.eval_keepsLengths hcall fun part hpart => h _ (by simp [Stmt.nodes, Expr.nodes, hpart])) fun v =>
      .bind (store_keepsLengths hcall target (fun part hpart => h _ (by simp [Stmt.nodes, Expr.nodes, hpart]))
        (h _ (List.mem_cons_self ..)).bound v) fun _ => .pure _
  | .augAssign _ target op value, h => by
    have htarget : ∀ part ∈ target.subterms, (Node.expr part).IsTame N calls :=
      fun part hpart => h _ (by simp [Stmt.nodes, Expr.nodes, hpart])
    have hvalue : ∀ part ∈ value.subterms, (Node.expr part).IsTame N calls :=
      fun part hpart => h _ (by simp [Stmt.nodes, Expr.nodes, hpart])
    have htame := h _ (List.mem_cons_self ..)
    refine .bind (.charge ..) fun _ => .bind (target.eval_keepsLengths hcall htarget) fun current => ?_
    refine KeepsLengths.bindRun (value.eval_keepsLengths hcall hvalue) fun s operand t hs hrun => ?_
    refine .bind (augment_keepsLengths hcall target htarget htame.bound fun hop => ?_) fun _ => .pure _
    have hcalm := htame.calm
    rw [Node.isCalm, hop, bne_self_eq_false, Bool.false_or] at hcalm
    exact value.not_list_of_yieldsNoList hcall hvalue hcalm s operand t hs hrun
  | .forLoop _ x source body, h => .bind (.charge ..) fun _ =>
    .bind (source.eval_keepsLengths hcall fun part hpart => h _ (by simp [Stmt.nodes, Expr.nodes, hpart])) fun _ =>
      .after (.iterate _) fun _ => .forRounds ((h _ (List.mem_cons_self ..)).bound x (List.mem_singleton_self x))
        (Block.exec_keepsLengths hcall body fun node hnode => h node (by simp [Stmt.nodes, hnode])) _
  | .whileLoop _ test body, h => .bind (.charge ..) fun _ =>
    .whileRounds (test.eval_keepsLengths hcall fun part hpart => h _ (by simp [Stmt.nodes, Expr.nodes, hpart]))
      (Block.exec_keepsLengths hcall body fun node hnode => h node (by simp [Stmt.nodes, hnode])) _
  | .ifElse _ test body orelse, h => .bind (.charge ..) fun _ =>
    .bind (test.eval_keepsLengths hcall fun part hpart => h _ (by simp [Stmt.nodes, Expr.nodes, hpart])) fun _ =>
      .bind (.truth _) fun _ => .ite
        (Block.exec_keepsLengths hcall body fun node hnode => h node (by simp [Stmt.nodes, hnode]))
        (Block.exec_keepsLengths hcall orelse fun node hnode => h node (by simp [Stmt.nodes, hnode]))
  | .expr _ value, h => .bind (.charge ..) fun _ =>
    .bind (.bind (value.eval_keepsLengths hcall fun part hpart =>
      h _ (by simp [Stmt.nodes, Expr.nodes, hpart])) fun _ => .pure _) fun _ => .pure _
  | .pass _, _ => .bind (.charge ..) fun _ => .pure _
  | .brk _, _ => .bind (.charge ..) fun _ => .pure _
  | .cont _, _ => .bind (.charge ..) fun _ => .pure _

theorem Block.exec_keepsLengths (hcall : calls → ∀ l args, KeepsLengths N (env.call l args)) : ∀ block : Block Label,
    (∀ node ∈ Block.nodes block, node.IsTame N calls) → KeepsLengths N (Block.exec env block)
  | [], _ => .pure _
  | s :: rest, h => by
    rw [Block.exec]
    refine .bind (s.exec_keepsLengths hcall fun node hnode => h node (by simp [Block.nodes, hnode])) fun flow => ?_
    cases flow with
    | next => exact Block.exec_keepsLengths hcall rest fun node hnode => h node (by simp [Block.nodes, hnode])
    | _ => exact .pure _

end

end

end ProgramBreeding

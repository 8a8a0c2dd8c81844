import ProgramBreeding.Proofs.Execution.Operations
import ProgramBreeding.Tree.Names

/-!
# Programs that match up to exchanged parts

## Main definitions

* `Exchange` — which parts of two programs may stand for each other.
* `Expr.Matches`, `Stmt.Matches`, `Block.Matches`, `Body.Matches` — programs that are the same up
  to exchanged parts and up to labels.
* `View.Fits` — the variables that may differ while a function runs, or the module.
* `Exchange.Holds` — parts that are exchanged do the same in two runs.
* `Expr.Matches.sim`, `Stmt.Matches.sim`, `Block.Matches.sim` — then so do programs that match.

## Design notes

A part may leave variables behind that its counterpart does not have.  So an exchange says which variables
of a function, or of the module, may differ, and nothing else in the function reads them.
-/

namespace ProgramBreeding

/-- Which parts of two programs may stand for each other. -/
structure Exchange where
  /-- Which functions stand for each other. -/
  labels : Labelling
  expr : Expr Label → Expr Label → Prop
  /-- Statements that follow one another in a block of a function, or of the module. -/
  part : Option Label → Block Label → Block Label → Prop
  /-- Bodies of functions, of loops and of conditionals as a whole. -/
  body : Block Label → Block Label → Prop
  /-- No assignment is made to an expression that is exchanged. -/
  not_assignable : ∀ {e e'}, expr e e' → e.isAssignable = false ∧ e'.isAssignable = false
  /-- The variables of a function, or of the module, that may have different values in the two runs. -/
  hidden : Option Label → String → Prop := fun _ _ => False
  /-- The variables of the module that may have different values while a function runs. -/
  concealed : String → Prop := fun _ => False
  /-- The names that variables have. -/
  names : String → Prop := fun _ => True

variable {X : Exchange} {owner : Option Label}

/-- Where no expression is exchanged, none that is exchanged is assigned to. -/
theorem Exchange.not_assignable_of_none {e e' : Expr Label} (h : False) :
    e.isAssignable = false ∧ e'.isAssignable = false := h.elim

mutual

/-- Expressions that are the same up to exchanged parts. -/
inductive Expr.Matches (X : Exchange) (owner : Option Label) : Expr Label → Expr Label → Prop
  | exchanged {e e' : Expr Label} (h : X.expr e e') : Expr.Matches X owner e e'
  | name (l l' : Label) {id : String} (hid : ¬ X.hidden owner id) :
    Expr.Matches X owner (.name l id) (.name l' id)
  | constant (l l' : Label) (value : Literal) :
    Expr.Matches X owner (.constant l value) (.constant l' value)
  | list (l l' : Label) {items items' : List (Expr Label)} (h : Exprs.Matches X owner items items') :
    Expr.Matches X owner (.list l items) (.list l' items')
  | comprehension (l l' : Label) (kind : ComprehensionKind) {x : String} (hx : X.names x)
    {element element' source source' : Expr Label} {cond cond' : Option (Expr Label)}
    (helement : Expr.Matches X owner element element') (hsource : Expr.Matches X owner source source')
    (hcond : Cond.Matches X owner cond cond') :
    Expr.Matches X owner (.comprehension l kind element x source cond)
      (.comprehension l' kind element' x source' cond')
  | binary (l l' : Label) (op : BinaryOp) {left left' right right' : Expr Label}
    (hleft : Expr.Matches X owner left left') (hright : Expr.Matches X owner right right') :
    Expr.Matches X owner (.binary l op left right) (.binary l' op left' right')
  | unary (l l' : Label) (op : UnaryOp) {e e' : Expr Label} (h : Expr.Matches X owner e e') :
    Expr.Matches X owner (.unary l op e) (.unary l' op e')
  | logic (l l' : Label) (op : LogicOp) {left left' right right' : Expr Label}
    (hleft : Expr.Matches X owner left left') (hright : Expr.Matches X owner right right') :
    Expr.Matches X owner (.logic l op left right) (.logic l' op left' right')
  | compare (l l' : Label) (op : CompareOp) {left left' right right' : Expr Label}
    (hleft : Expr.Matches X owner left left') (hright : Expr.Matches X owner right right') :
    Expr.Matches X owner (.compare l op left right) (.compare l' op left' right')
  | method (l l' k k' : Label) (attr : String) {e e' : Expr Label} {args args' : List (Expr Label)}
    (h : Expr.Matches X owner e e') (hargs : Exprs.Matches X owner args args') :
    Expr.Matches X owner (.call l (.attribute k e attr) args) (.call l' (.attribute k' e' attr) args')
  | call (l l' : Label) {callee callee' : Expr Label} {args args' : List (Expr Label)}
    (hleft : callee.isAttribute = false) (hright : callee'.isAttribute = false)
    (h : Expr.Matches X owner callee callee') (hargs : Exprs.Matches X owner args args') :
    Expr.Matches X owner (.call l callee args) (.call l' callee' args')
  | attribute (l l' : Label) (attr : String) {e e' : Expr Label} (h : Expr.Matches X owner e e') :
    Expr.Matches X owner (.attribute l e attr) (.attribute l' e' attr)
  | subscript (l l' : Label) {e e' index index' : Expr Label} (h : Expr.Matches X owner e e')
    (hindex : Expr.Matches X owner index index') :
    Expr.Matches X owner (.subscript l e index) (.subscript l' e' index')

/-- Lists of expressions that are the same up to exchanged parts. -/
inductive Exprs.Matches (X : Exchange) (owner : Option Label) : List (Expr Label) → List (Expr Label) → Prop
  | nil : Exprs.Matches X owner [] []
  | cons {e e' : Expr Label} {rest rest' : List (Expr Label)} (h : Expr.Matches X owner e e')
    (hrest : Exprs.Matches X owner rest rest') : Exprs.Matches X owner (e :: rest) (e' :: rest')

/-- Conditions that are the same up to exchanged parts. -/
inductive Cond.Matches (X : Exchange) (owner : Option Label) : Option (Expr Label) → Option (Expr Label) → Prop
  | none : Cond.Matches X owner none none
  | some {e e' : Expr Label} (h : Expr.Matches X owner e e') : Cond.Matches X owner (some e) (some e')

end

mutual

/-- Statements that are the same up to exchanged parts. -/
inductive Stmt.Matches (X : Exchange) : Option Label → Stmt Label → Stmt Label → Prop
  | functionDef {owner : Option Label} {l l' : Label} {name : String} {params : List String}
    {body body' : Block Label} (hl : X.labels.rel l l') (hname : X.names name) (hparams : ∀ x ∈ params, X.names x)
    (h : Body.Matches X (some l) body body') :
    Stmt.Matches X owner (.functionDef l name params body) (.functionDef l' name params body')
  | ret {owner : Option Label} (l l' : Label) : Stmt.Matches X owner (.ret l none) (.ret l' none)
  | retValue {owner : Option Label} (l l' : Label) {e e' : Expr Label} (h : e.Matches X owner e') :
    Stmt.Matches X owner (.ret l (some e)) (.ret l' (some e'))
  | assign {owner : Option Label} (l l' : Label) {target target' e e' : Expr Label}
    (hnames : ∀ x ∈ target.targetNames, X.names x) (htarget : target.Matches X owner target')
    (h : e.Matches X owner e') : Stmt.Matches X owner (.assign l target e) (.assign l' target' e')
  | augAssign {owner : Option Label} (l l' : Label) (op : BinaryOp) {target target' e e' : Expr Label}
    (hnames : ∀ x ∈ target.targetNames, X.names x) (htarget : target.Matches X owner target')
    (h : e.Matches X owner e') : Stmt.Matches X owner (.augAssign l target op e) (.augAssign l' target' op e')
  | forLoop {owner : Option Label} (l l' : Label) {x : String} (hx : X.names x)
    {source source' : Expr Label} {body body' : Block Label} (hsource : source.Matches X owner source')
    (h : Body.Matches X owner body body') :
    Stmt.Matches X owner (.forLoop l x source body) (.forLoop l' x source' body')
  | whileLoop {owner : Option Label} (l l' : Label) {test test' : Expr Label} {body body' : Block Label}
    (htest : test.Matches X owner test') (h : Body.Matches X owner body body') :
    Stmt.Matches X owner (.whileLoop l test body) (.whileLoop l' test' body')
  | ifElse {owner : Option Label} (l l' : Label) {test test' : Expr Label}
    {body body' orelse orelse' : Block Label} (htest : test.Matches X owner test')
    (h : Body.Matches X owner body body') (horelse : Block.Matches X owner orelse orelse') :
    Stmt.Matches X owner (.ifElse l test body orelse) (.ifElse l' test' body' orelse')
  | expr {owner : Option Label} (l l' : Label) {e e' : Expr Label} (h : e.Matches X owner e') :
    Stmt.Matches X owner (.expr l e) (.expr l' e')
  | pass {owner : Option Label} (l l' : Label) : Stmt.Matches X owner (.pass l) (.pass l')
  | brk {owner : Option Label} (l l' : Label) : Stmt.Matches X owner (.brk l) (.brk l')
  | cont {owner : Option Label} (l l' : Label) : Stmt.Matches X owner (.cont l) (.cont l')

/-- Blocks that are the same up to exchanged parts. -/
inductive Block.Matches (X : Exchange) : Option Label → List (Stmt Label) → List (Stmt Label) → Prop
  | nil {owner : Option Label} : Block.Matches X owner [] []
  | cons {owner : Option Label} {s s' : Stmt Label} {rest rest' : List (Stmt Label)}
    (h : Stmt.Matches X owner s s') (hrest : Block.Matches X owner rest rest') :
    Block.Matches X owner (s :: rest) (s' :: rest')
  | exchanged {owner : Option Label} {part part' rest rest' : List (Stmt Label)}
    (h : X.part owner part part') (hrest : Block.Matches X owner rest rest') :
    Block.Matches X owner (part ++ rest) (part' ++ rest')

/-- Bodies that are the same up to exchanged parts. -/
inductive Body.Matches (X : Exchange) : Option Label → List (Stmt Label) → List (Stmt Label) → Prop
  | block {owner : Option Label} {body body' : List (Stmt Label)} (h : Block.Matches X owner body body') :
    Body.Matches X owner body body'
  | exchanged {owner : Option Label} {body body' : List (Stmt Label)} (h : X.body body body') :
    Body.Matches X owner body body'

end

/-! ### The other way round -/

/-- The functions of two programs, the second one first. -/
def Labelling.symm (L : Labelling) : Labelling where
  rel l l' := L.rel l' l
  unique h h' := (L.unique h h').symm

/-- The parts of two programs, the second one first.  Nothing is said about variables that may differ. -/
def Exchange.symm (X : Exchange) : Exchange where
  labels := X.labels.symm
  expr e e' := X.expr e' e
  part _ p p' := ∃ owner, X.part owner p' p
  body b b' := X.body b' b
  not_assignable h := (X.not_assignable h).symm
  names := X.names

mutual

theorem Expr.Matches.symm {other : Option Label} {e e' : Expr Label} (h : e.Matches X owner e') :
    e'.Matches X.symm other e :=
  match h with
  | .exchanged h => .exchanged h
  | .name .. => .name _ _ id
  | .constant _ _ value => .constant _ _ value
  | .list _ _ h => .list _ _ h.symm
  | .comprehension _ _ kind hx helement hsource hcond =>
    .comprehension (X := X.symm) _ _ kind hx helement.symm hsource.symm hcond.symm
  | .binary _ _ op hleft hright => .binary _ _ op hleft.symm hright.symm
  | .unary _ _ op h => .unary _ _ op h.symm
  | .logic _ _ op hleft hright => .logic _ _ op hleft.symm hright.symm
  | .compare _ _ op hleft hright => .compare _ _ op hleft.symm hright.symm
  | .method _ _ _ _ attr h hargs => .method _ _ _ _ attr h.symm hargs.symm
  | .call _ _ hleft hright h hargs => .call _ _ hright hleft h.symm hargs.symm
  | .attribute _ _ attr h => .attribute _ _ attr h.symm
  | .subscript _ _ h hindex => .subscript _ _ h.symm hindex.symm

theorem Exprs.Matches.symm {other : Option Label} {es es' : List (Expr Label)} (h : Exprs.Matches X owner es es') :
    Exprs.Matches X.symm other es' es :=
  match h with
  | .nil => .nil
  | .cons h hrest => .cons h.symm hrest.symm

theorem Cond.Matches.symm {other : Option Label} {cond cond' : Option (Expr Label)}
    (h : Cond.Matches X owner cond cond') : Cond.Matches X.symm other cond' cond :=
  match h with
  | .none => .none
  | .some h => .some h.symm

end

theorem Expr.targetNames_eq_nil {e : Expr Label} (h : e.isAssignable = false) : e.targetNames = [] := by
  cases e <;> first | rfl | cases h

/-- Targets that match give values to the same names. -/
theorem Expr.Matches.targetNames_eq {e e' : Expr Label} (h : e.Matches X owner e') :
    e'.targetNames = e.targetNames := by
  cases h with
  | exchanged h =>
    obtain ⟨hleft, hright⟩ := X.not_assignable h
    rw [Expr.targetNames_eq_nil hleft, Expr.targetNames_eq_nil hright]
  | _ => rfl

mutual

theorem Stmt.Matches.symm {owner other : Option Label} {s s' : Stmt Label} (h : s.Matches X owner s') :
    s'.Matches X.symm other s :=
  match h with
  | .functionDef hl hname hparams h => .functionDef hl hname hparams h.symm
  | .ret .. => .ret ..
  | .retValue _ _ h => .retValue _ _ h.symm
  | .assign _ _ hnames htarget h => .assign _ _ (htarget.targetNames_eq ▸ hnames) htarget.symm h.symm
  | .augAssign _ _ op hnames htarget h =>
    .augAssign _ _ op (htarget.targetNames_eq ▸ hnames) htarget.symm h.symm
  | .forLoop _ _ hx hsource h => .forLoop (X := X.symm) _ _ hx hsource.symm h.symm
  | .whileLoop _ _ htest h => .whileLoop _ _ htest.symm h.symm
  | .ifElse _ _ htest h horelse => .ifElse _ _ htest.symm h.symm horelse.symm
  | .expr _ _ h => .expr _ _ h.symm
  | .pass .. => .pass ..
  | .brk .. => .brk ..
  | .cont .. => .cont ..

theorem Block.Matches.symm {owner other : Option Label} {b b' : List (Stmt Label)}
    (h : Block.Matches X owner b b') : Block.Matches X.symm other b' b :=
  match h with
  | .nil => .nil
  | .cons h hrest => .cons h.symm hrest.symm
  | .exchanged h hrest => .exchanged ⟨_, h⟩ hrest.symm

theorem Body.Matches.symm {owner other : Option Label} {b b' : List (Stmt Label)}
    (h : Body.Matches X owner b b') : Body.Matches X.symm other b' b :=
  match h with
  | .block h => .block h.symm
  | .exchanged h => .exchanged h

end

/-! ### What matching programs do -/

/-- While a function runs, or the module, the variables that may differ are those of the exchange. -/
structure View.Fits (X : Exchange) (owner : Option Label) (V : View) : Prop where
  top : V.top = X.hidden owner
  globals : ∀ x, V.globals x → X.concealed x
  shown : ∀ x, V.globals x → X.hidden owner x
  level : V.frames = [] ↔ owner = none

theorem View.Fits.not_hides {V : View} (h : V.Fits X owner) {x : String} (hx : ¬ X.hidden owner x) : ¬ V.Hides x := by
  rintro (hglobal | htop)
  · exact hx (h.shown x hglobal)
  · exact hx (h.top ▸ htop)

/-- Functions of two programs do the same with values that agree, if the call is paid for, whatever the
variables of the module that may differ. -/
def CallsAlike (S : Setting) (concealed : String → Prop) (call call' : Label → List Value → Exec Value) : Prop :=
  ∀ V P l l' args args', (∀ x, V.globals x → concealed x) → S.labels.rel l l' → Values.Agree S.labels P args args' →
    ∀ c, Sim S V P (c + S.extra) c (Value.Agree S.labels) (call l args) (call' l' args')

/-- The exchange speaks of the functions and the variables of two runs. -/
structure Exchange.Suits (X : Exchange) (S : Setting) : Prop where
  labels : X.labels = S.labels
  names : ∀ {x}, X.names x → S.names x

/-- Parts that are exchanged do the same in two runs. -/
structure Exchange.Holds (X : Exchange) (S : Setting) (call call' : Label → List Value → Exec Value) : Prop where
  suits : X.Suits S
  calls : CallsAlike S X.concealed call call'
  expr : ∀ {e e'}, X.expr e e' → ∀ V P c, Sim S V P c c (Value.Agree S.labels)
    (e.eval ⟨S.budget, call⟩) (e'.eval ⟨S.budget', call'⟩)
  part : ∀ {owner p p' V}, X.part owner p p' → V.Fits X owner → ∀ P c, Sim S V P c c (Flow.Agree S.labels)
    (Block.exec ⟨S.budget, call⟩ p) (Block.exec ⟨S.budget', call'⟩ p')
  body : ∀ {owner b b' V}, X.body b b' → V.Fits X owner → ∀ P c, Sim S V P (c + S.extra) c (Flow.Agree S.labels)
    (Block.exec ⟨S.budget, call⟩ b) (Block.exec ⟨S.budget', call'⟩ b')

section

variable {S : Setting} {V : View} {call call' : Label → List Value → Exec Value}

/-- Functions are called alike, and so is everything else that can be called. -/
theorem CallsAlike.callValue {concealed : String → Prop} {P : Pairing} (h : CallsAlike S concealed call call')
    (hV : ∀ x, V.globals x → concealed x) {f f' : Value} {args args' : List Value} (hf : f.Agree S.labels P f')
    (hargs : Values.Agree S.labels P args args') (c : Nat) :
    Sim S V P (c + S.extra) c (Value.Agree S.labels) (callValue ⟨S.budget, call⟩ f args)
      (callValue ⟨S.budget', call'⟩ f' args') := by
  cases hf with
  | function hl => exact h _ _ _ _ _ _ hV hl hargs c
  | builtin b => exact (Sim.callBuiltin b hargs).mono (Nat.le_add_right ..)
  | _ => exact .raise _

mutual

theorem Expr.Matches.sim (hX : X.Holds S call call') (hV : V.Fits X owner) {e e' : Expr Label}
    (h : e.Matches X owner e') (P : Pairing) (c : Nat) :
    Sim S V P c c (Value.Agree S.labels) (e.eval ⟨S.budget, call⟩) (e'.eval ⟨S.budget', call'⟩) :=
  match h with
  | .exchanged h => hX.expr h V P c
  | .name _ _ hid => (Step.charge 1).bind fun _ _ _ => (Step.getVar (hV.not_hides hid)).sim
  | .constant _ _ value => (Step.charge 1).bind fun _ _ _ => .pure (Value.agree_ofLiteral value)
  | .list _ _ h => (Step.charge 1).bind fun _ _ _ => (h.sim hX hV P c).bind fun _ _ _ _ hvs => .newList (by simpa)
  | .comprehension l l' kind hx helement hsource hcond => by
    rw [Expr.eval_comprehension, Expr.eval_comprehension]
    refine (Step.charge 1).bind fun _ _ _ => (hsource.sim hX hV P c).bind fun _ _ _ _ hv => ?_
    exact .runComprehension (hX.suits.names hx) (hcond.sim hX hV) (helement.sim hX hV) hv
  | .binary _ _ op hleft hright => (Step.charge 1).bind fun _ _ _ => (hleft.sim hX hV P c).bind fun Q _ _ _ ha =>
    (hright.sim hX hV Q c).bind fun _ hle _ _ hb => .binaryOp op (ha.mono hle) hb
  | .unary _ _ op h => (Step.charge 1).bind fun _ _ _ => (h.sim hX hV P c).bind fun _ _ _ _ ha => .signOp op ha
  | .logic _ _ op hleft hright => by
    refine (Step.charge 1).bind fun _ _ _ => (hleft.sim hX hV P c).bind fun Q _ _ _ ha => ?_
    refine (Step.truth ha).bind fun b b' hb => ?_
    rw [← hb]
    exact .ite .rfl (fun _ => .pure ha) fun _ => hright.sim hX hV Q c
  | .compare _ _ op hleft hright => by
    refine (Step.charge 1).bind fun _ _ _ => (hleft.sim hX hV P c).bind fun Q _ _ _ ha => ?_
    refine (hright.sim hX hV Q c).bind fun _ hle _ _ hb => .get fun s s' hagree => ?_
    rw [compareValues_eq op hagree.heap (ha.mono hle) hb]
    exact .ofExcept_bind _ fun b => .pure (.bool b)
  | .method _ _ _ _ attr h hargs => (Step.charge 1).bind fun _ _ _ => (h.sim hX hV P c).bind fun Q _ _ _ hv =>
    (hargs.sim hX hV Q c).bind fun _ hle _ _ hvs => .callMethod attr (hv.mono hle) hvs
  | .call l l' hleft hright h hargs => by
    rw [Expr.eval_call _ _ _ hleft, Expr.eval_call _ _ _ hright]
    -- The unit of the call is saved for the body of what is called.
    refine (Step.earn 1).bind fun _ _ _ => (h.sim hX hV P _).bind fun Q _ _ _ hf => ?_
    refine (hargs.sim hX hV Q _).bind fun _ hle _ _ hvs => ?_
    simpa using hX.calls.callValue hV.globals (hf.mono hle) hvs c
  | .attribute _ _ _ _ => (Step.charge 1).bind fun _ _ _ => .raise _
  | .subscript _ _ h hindex => (Step.charge 1).bind fun _ _ _ => (h.sim hX hV P c).bind fun Q _ _ _ hv =>
    (hindex.sim hX hV Q c).bind fun _ hle _ _ hi => .elementAt (hv.mono hle) hi

theorem Exprs.Matches.sim (hX : X.Holds S call call') (hV : V.Fits X owner) {es es' : List (Expr Label)}
    (h : Exprs.Matches X owner es es') (P : Pairing) (c : Nat) : Sim S V P c c (Values.Agree S.labels)
      (Expr.evalAll ⟨S.budget, call⟩ es) (Expr.evalAll ⟨S.budget', call'⟩ es') :=
  match h with
  | .nil => .pure .nil
  | .cons h hrest => (h.sim hX hV P c).bind fun Q _ _ _ hv => (hrest.sim hX hV Q c).bind fun _ hle _ _ hvs =>
    .pure (.cons (hv.mono hle) hvs)

theorem Cond.Matches.sim (hX : X.Holds S call call') (hV : V.Fits X owner) {cond cond' : Option (Expr Label)}
    (h : Cond.Matches X owner cond cond') :
    Option.Rel (fun m m' => ∀ P c, Sim S V P c c (Value.Agree S.labels) m m')
      (cond.map fun e => e.eval ⟨S.budget, call⟩) (cond'.map fun e => e.eval ⟨S.budget', call'⟩) :=
  match h with
  | .none => .none
  | .some h => .some (h.sim hX hV)

end

theorem store_eq_raise {env : Env} {v : Value} {target : Expr Label} (h : target.isAssignable = false) :
    store env v target = raise .notAssignable := by
  cases target <;> first | rfl | cases h

/-- Values that agree are assigned alike. -/
theorem Expr.Matches.store (hX : X.Holds S call call') (hV : V.Fits X owner) {target target' : Expr Label}
    (hnames : ∀ x ∈ target.targetNames, X.names x) (h : target.Matches X owner target') {P : Pairing}
    {v v' : Value} (hv : v.Agree S.labels P v') (c : Nat) : Sim S V P c c (fun _ _ _ => True)
      (store ⟨S.budget, call⟩ v target) (store ⟨S.budget', call'⟩ v' target') := by
  cases h with
  | exchanged h =>
    -- What is exchanged is no target, so both runs fail, and in the same way.
    obtain ⟨hleft, hright⟩ := X.not_assignable h
    rw [store_eq_raise hleft, store_eq_raise hright]
    exact .raise _
  | name => exact (Step.setVar (hX.suits.names (hnames _ (List.mem_singleton_self _))) hv).sim
  | subscript _ _ h hindex =>
    refine (h.sim hX hV P c).bind fun Q hle _ _ hlist => (hindex.sim hX hV Q c).bind fun _ hle' _ _ hi => ?_
    exact (Step.storeItem (hlist.mono hle') hi (hv.mono (le_trans hle hle'))).sim
  | _ => exact .raise _

theorem Expr.Matches.augment (hX : X.Holds S call call') (hV : V.Fits X owner) {target target' : Expr Label}
    (hnames : ∀ x ∈ target.targetNames, X.names x) (h : target.Matches X owner target') (op : BinaryOp)
    {P : Pairing} {v v' operand operand' : Value} (hv : v.Agree S.labels P v')
    (hoperand : operand.Agree S.labels P operand') (c : Nat) : Sim S V P c c (fun _ _ _ => True)
      (augment ⟨S.budget, call⟩ target op v operand) (augment ⟨S.budget', call'⟩ target' op v' operand') := by
  have hother : Sim S V P c c (fun _ _ _ => True)
      (binaryOp op v operand >>= fun result => ProgramBreeding.store ⟨S.budget, call⟩ result target)
      (binaryOp op v' operand' >>= fun result => ProgramBreeding.store ⟨S.budget', call'⟩ result target') :=
    (Sim.binaryOp op hv hoperand).bind fun _ _ _ _ hresult => h.store hX hV hnames hresult c
  -- Only a list that is added to another one is changed in place.
  cases op with
  | add =>
    cases hv with
    | list hr =>
      cases hoperand with
      | list hq =>
        refine (Step.itemsOf hq).bind fun extra extra' hextra => Step.sim (.updateList hr fun items items' hitems => ?_)
        rw [Array.toList_append, Array.toList_append]
        exact hitems.append hextra
      | _ => exact hother
    | _ => exact hother
  | _ => exact hother

/-- What comes after a statement or a block is reached by both runs or by none. -/
theorem Sim.followedBy {P : Pairing} {c d : Nat} {m m' rest rest' : Exec Flow}
    (h : Sim S V P c d (Flow.Agree S.labels) m m')
    (hrest : ∀ Q, Sim S V Q d d (Flow.Agree S.labels) rest rest') :
    Sim S V P c d (Flow.Agree S.labels)
      (do
        match ← m with
        | .next => rest
        | flow => return flow)
      (do
        match ← m' with
        | .next => rest'
        | flow => return flow) := by
  refine h.bind fun Q _ flow flow' hflow => ?_
  cases hflow with
  | next => exact hrest Q
  | ret hv => exact .pure (.ret hv)
  | brk => exact .pure .brk
  | cont => exact .pure .cont

theorem Block.exec_singleton (env : Env) (s : Stmt Label) : Block.exec env [s] = s.exec env := by
  rw [Block.exec]
  conv => rhs; rw [← bind_pure (s.exec env)]
  refine congrArg _ (funext fun flow => ?_)
  cases flow <;> rfl

/-- A block after another one. -/
theorem Block.exec_append (env : Env) (rest : Block Label) : ∀ part : Block Label,
    Block.exec env (part ++ rest) = (do
      match ← Block.exec env part with
      | .next => Block.exec env rest
      | flow => return flow)
  | [] => (pure_bind _ _).symm
  | s :: part => by
    rw [List.cons_append, Block.exec, Block.exec, bind_assoc]
    refine congrArg _ (funext fun flow => ?_)
    cases flow with
    | next => exact Block.exec_append env rest part
    | _ => rfl

mutual

theorem Stmt.Matches.sim {owner : Option Label} (hX : X.Holds S call call') (hV : V.Fits X owner) {s s' : Stmt Label}
    (h : s.Matches X owner s') (P : Pairing) (c : Nat) :
    Sim S V P c c (Flow.Agree S.labels) (s.exec ⟨S.budget, call⟩) (s'.exec ⟨S.budget', call'⟩) :=
  match h with
  | .functionDef hl hname _ _ => (Step.charge 1).bind fun _ _ _ =>
    (Step.setVar (hX.suits.names hname) (.function (hX.suits.labels ▸ hl))).bind fun _ _ _ => .pure .next
  | .ret .. => (Step.charge 1).bind fun _ _ _ => .pure (.ret .none)
  | .retValue _ _ h => (Step.charge 1).bind fun _ _ _ => (h.sim hX hV P c).bind fun _ _ _ _ hv => .pure (.ret hv)
  | .assign _ _ hnames htarget h => (Step.charge 1).bind fun _ _ _ => (h.sim hX hV P c).bind fun _ _ _ _ hv =>
    (htarget.store hX hV hnames hv c).bind fun _ _ _ _ _ => .pure .next
  | .augAssign _ _ op hnames htarget h => (Step.charge 1).bind fun _ _ _ =>
    (htarget.sim hX hV P c).bind fun Q _ _ _ hv => (h.sim hX hV Q c).bind fun _ hle _ _ hoperand =>
      (htarget.augment hX hV hnames op (hv.mono hle) hoperand c).bind fun _ _ _ _ _ => .pure .next
  | .forLoop _ _ hx hsource h => (Step.charge 1).bind fun _ _ _ => (hsource.sim hX hV P c).bind fun _ _ _ _ hv =>
    (Step.iterate hv).bind fun _ _ hitems => .forRounds (hX.suits.names hx) (h.sim hX hV) hitems
  | .whileLoop _ _ htest h => (Step.charge 1).bind fun _ _ _ =>
    .whileRounds (htest.sim hX hV) (h.sim hX hV) (Nat.succ_le_succ S.fuel_le)
  | .ifElse _ _ htest h horelse => by
    -- The unit of the statement is saved for its body; the alternative needs none.
    refine (Step.earn 1).bind fun _ _ _ => (htest.sim hX hV P _).bind fun Q _ _ _ hv => ?_
    refine (Step.truth hv).bind fun b b' hb => ?_
    rw [← hb]
    exact .ite .rfl (fun _ => by simpa using h.sim hX hV Q c) fun _ =>
      (horelse.sim hX hV Q _).mono (Nat.le_add_right ..)
  | .expr _ _ h => (Step.charge 1).bind fun _ _ _ =>
    Sim.bind (A := fun _ _ _ => True) ((h.sim hX hV P c).bind fun _ _ _ _ _ => .pure trivial) fun _ _ _ _ _ =>
      .pure .next
  | .pass .. => (Step.charge 1).bind fun _ _ _ => .pure .next
  | .brk .. => (Step.charge 1).bind fun _ _ _ => .pure .brk
  | .cont .. => (Step.charge 1).bind fun _ _ _ => .pure .cont

theorem Block.Matches.sim {owner : Option Label} (hX : X.Holds S call call') (hV : V.Fits X owner)
    {b b' : List (Stmt Label)} (h : Block.Matches X owner b b') (P : Pairing) (c : Nat) :
    Sim S V P c c (Flow.Agree S.labels) (Block.exec ⟨S.budget, call⟩ b) (Block.exec ⟨S.budget', call'⟩ b') :=
  match h with
  | .nil => .pure .next
  | .cons h hrest => by
    rw [Block.exec, Block.exec]
    exact (h.sim hX hV P c).followedBy fun Q => hrest.sim hX hV Q c
  | .exchanged h hrest => by
    rw [Block.exec_append, Block.exec_append]
    exact (hX.part h hV P c).followedBy fun Q => hrest.sim hX hV Q c

theorem Body.Matches.sim {owner : Option Label} (hX : X.Holds S call call') (hV : V.Fits X owner)
    {b b' : List (Stmt Label)} (h : Body.Matches X owner b b') (P : Pairing) (c : Nat) :
    Sim S V P (c + S.extra) c (Flow.Agree S.labels) (Block.exec ⟨S.budget, call⟩ b)
      (Block.exec ⟨S.budget', call'⟩ b') :=
  match h with
  | .block h => (h.sim hX hV P _).mono (Nat.le_add_right ..)
  | .exchanged h => hX.body h hV P c

end

end

end ProgramBreeding

import ProgramBreeding.Proofs.Execution.Programs

/-!
# Runs that cannot be told apart

Programs may be the same up to parts that do exactly the same.  Then a run of one is a run of the other:
it ends with the same value or error, want of fuel included, and in the same state.

## Main definitions

* `Setting.even` — two runs with the same fuel.
* `Lockstep` — two actions that come to the same result in the same state.
* `Exchange.Exact` — parts that are exchanged do exactly the same.
* `Stmt.Matches.lockstep`, `Block.Matches.lockstep` — programs that match up to such parts.
* `Program.Matches.indistinguishable` — their runs.

## Design notes

`Sim` lets the second run save fuel, and says nothing of a first run that ends for want of it.  Here ends
are compared by equality, but only from states in which every function has a partner: a function that one
program does without must never be called.  That steps lead to such states again is what `Sim` says.
-/

namespace ProgramBreeding

/-- Two runs with the same fuel. -/
abbrev Setting.even (L : Labelling) (fuel : UInt64) : Setting where
  labels := L
  fuel := fuel
  fuel' := fuel
  extra := 0
  enough := by omega

/-- Two actions that come to the same result in the same state, if every function has a partner. -/
def Lockstep {α : Type} (L : Labelling) (fuel : UInt64) (V : View) (P : Pairing) (m m' : Exec α) : Prop :=
  ∀ s : State, s.Agree (.even L fuel) V P 0 s → m'.run s = m.run s

variable {L : Labelling} {fuel : UInt64} {V : View} {P : Pairing} {α β : Type}

/-! ### Composed actions -/

namespace Lockstep

variable {m m' : Exec α}

protected theorem rfl : Lockstep L fuel V P m m := fun _ _ => rfl

/-- Both actions have come to the same state, in which every function has a partner again. -/
protected theorem bind {A : Pairing → α → α → Prop} {f f' : α → Exec β} (h : Lockstep L fuel V P m m')
    (hsim : Sim (.even L fuel) V P 0 0 A m m')
    (hf : ∀ Q, P ≤ Q → ∀ a, A Q a a → Lockstep L fuel V Q (f a) (f' a)) :
    Lockstep L fuel V P (m >>= f) (m' >>= f') := by
  intro s hs
  have hsame := h s hs
  have hends := hsim s s hs
  cases hrun : m.run s with
  | error e t =>
    rw [hrun] at hsame
    rw [run_bind_error hrun, run_bind_error hsame]
  | ok a t =>
    rw [hrun] at hsame hends
    obtain ⟨a', t', hrun', Q, hle, ha, ht⟩ := hends
    cases hsame.symm.trans hrun'
    rw [run_bind_ok hrun, run_bind_ok hsame]
    exact hf Q hle a ha t ht

/-- Both actions are followed by the same. -/
protected theorem before (f : α → Exec β) (h : Lockstep L fuel V P m m') :
    Lockstep L fuel V P (m >>= f) (m' >>= f) := by
  intro s hs
  rw [EStateM.run_bind, EStateM.run_bind, h s hs]

/-- After a step that both make. -/
protected theorem after {A : α → α → Prop} {f f' : α → Exec β} (hstep : Step (.even L fuel) V P 0 0 A m m)
    (hf : ∀ a, A a a → Lockstep L fuel V P (f a) (f' a)) : Lockstep L fuel V P (m >>= f) (m >>= f') := by
  intro s hs
  have hends := hstep s s hs
  cases hrun : m.run s with
  | error e t => rw [run_bind_error hrun, run_bind_error hrun]
  | ok a t =>
    rw [hrun] at hends
    obtain ⟨a', t', hrun', ha, ht⟩ := hends
    cases hrun'
    rw [run_bind_ok hrun, run_bind_ok hrun]
    exact hf a ha t ht

/-- Both look at the state first. -/
protected theorem get {f f' : State → Exec β}
    (h : ∀ s : State, s.Agree (.even L fuel) V P 0 s → Lockstep L fuel V P (f s) (f' s)) :
    Lockstep L fuel V P (MonadState.get >>= f) (MonadState.get >>= f') :=
  fun s hs => h s hs s hs

/-- Both spend a unit of fuel first. -/
protected theorem charged (h : Lockstep L fuel V P m m') :
    Lockstep L fuel V P (do charge { fuel } 1; m) (do charge { fuel } 1; m') :=
  .after (Step.charge (S := .even L fuel) 1) fun _ _ => h

protected theorem ite {p : Prop} [Decidable p] {n n' : Exec α} (h : Lockstep L fuel V P m m')
    (h' : Lockstep L fuel V P n n') : Lockstep L fuel V P (if p then m else n) (if p then m' else n') := by
  split
  · exact h
  · exact h'

protected theorem shielding (x : String) (h : Lockstep L fuel V P m m') :
    Lockstep L fuel V P (shielding x m) (shielding x m') := by
  intro s hs
  have hfree : State.Agree (.even L fuel) V P 0 (s.updateScope fun scope => scope.erase x)
      (s.updateScope fun scope => scope.erase x) :=
    hs.updateScope fun _ _ hscope => hscope.put x (fun _ => .none) (absurd rfl) (absurd rfl)
  rw [shielding_run, shielding_run, h _ hfree]

protected theorem inFrame {frame : Scope} {hidden : String → Prop} (hframe : frame.Agree (.even L fuel) P hidden frame)
    (h : Lockstep L fuel (V.push hidden) P m m') : Lockstep L fuel V P (inFrame frame m) (inFrame frame m') := by
  intro s hs
  have hinner : State.Agree (.even L fuel) (V.push hidden) P 0 { s with frames := frame :: s.frames }
      { s with frames := frame :: s.frames } := { hs with frames := .cons hframe hs.frames }
  rw [inFrame_run, inFrame_run, h _ hinner]

end Lockstep

/-! ### Loops -/

/-- Two actions that come to the same result in the same state, and to states in which every function has a
partner. -/
structure InLockstep (L : Labelling) (fuel : UInt64) (V : View) (A : Pairing → α → α → Prop) (m m' : Exec α) :
    Prop where
  lockstep : ∀ P, Lockstep L fuel V P m m'
  sim : ∀ P, Sim (.even L fuel) V P 0 0 A m m'

namespace InLockstep

variable {A : Pairing → α → α → Prop} {m m' : Exec α}

protected theorem bind {f f' : α → Exec β} (h : InLockstep L fuel V A m m')
    (hf : ∀ Q, P ≤ Q → ∀ a, A Q a a → Lockstep L fuel V Q (f a) (f' a)) :
    Lockstep L fuel V P (m >>= f) (m' >>= f') :=
  (h.lockstep P).bind (h.sim P) hf

end InLockstep

namespace Lockstep

variable {cond cond' : Option (Exec Value)} {element element' test test' : Exec Value} {body body' : Exec Flow}

/-- By induction on the items. -/
protected theorem collect (x : String) (hcond : Option.Rel (InLockstep L fuel V (Value.Agree L)) cond cond')
    (helement : InLockstep L fuel V (Value.Agree L) element element') :
    ∀ (P : Pairing) {items found : List Value}, Values.Agree L P items items →
      Lockstep L fuel V P (collect { fuel } x cond element found items)
        (collect { fuel } x cond' element' found items)
  | _, [], _, _ => .rfl
  | P, _ :: rest, _, .cons hitem hitems => by
    refine .charged <| .after (Step.setVar (S := .even L fuel) trivial hitem) fun _ _ => ?_
    -- With or without a condition, it comes down to whether the item is wanted.
    have hrest (Q : Pairing) (hle : P ≤ Q) (wanted : Bool) {found : List Value} : Lockstep L fuel V Q
        (if wanted then do
          let v ← element
          ProgramBreeding.collect { fuel } x cond element (v :: found) rest
        else ProgramBreeding.collect { fuel } x cond element found rest)
        (if wanted then do
          let v ← element'
          ProgramBreeding.collect { fuel } x cond' element' (v :: found) rest
        else ProgramBreeding.collect { fuel } x cond' element' found rest) := by
      refine .ite (helement.bind fun R hle' _ _ => ?_) ?_
      · exact .collect x hcond helement R (Values.Agree.mono (le_trans hle hle') hitems)
      · exact .collect x hcond helement Q (Values.Agree.mono hle hitems)
    cases hcond with
    | none => exact hrest P le_rfl true
    | some h => exact h.bind fun Q hle _ hv => .after (Step.truth hv) fun wanted _ => hrest Q hle wanted

protected theorem runComprehension (x : String)
    (hcond : Option.Rel (InLockstep L fuel V (Value.Agree L)) cond cond')
    (helement : InLockstep L fuel V (Value.Agree L) element element') {v : Value} (hv : v.Agree L P v) :
    Lockstep L fuel V P (runComprehension { fuel } x cond element v)
      (runComprehension { fuel } x cond' element' v) :=
  .after (Step.iterate hv) fun _ hitems =>
    (Lockstep.shielding x (.collect x hcond helement P hitems)).before _

/-- By induction on the items. -/
protected theorem forRounds (x : String) (hbody : InLockstep L fuel V (Flow.Agree L) body body') :
    ∀ (P : Pairing) {items : List Value}, Values.Agree L P items items →
      Lockstep L fuel V P (forRounds { fuel } x body items) (forRounds { fuel } x body' items)
  | _, [], _ => .rfl
  | _, _ :: _, .cons hitem hitems => by
    refine .charged <| .after (Step.setVar (S := .even L fuel) trivial hitem) fun _ _ => ?_
    refine hbody.bind fun Q hle flow _ => ?_
    cases flow with
    | next => exact .forRounds x hbody Q (Values.Agree.mono hle hitems)
    | cont => exact .forRounds x hbody Q (Values.Agree.mono hle hitems)
    | _ => exact .rfl

/-- By induction on the rounds that may still be made. -/
protected theorem whileRounds (htest : InLockstep L fuel V (Value.Agree L) test test')
    (hbody : InLockstep L fuel V (Flow.Agree L) body body') : ∀ (P : Pairing) (count : Nat),
      Lockstep L fuel V P (whileRounds { fuel } test body count) (whileRounds { fuel } test' body' count)
  | _, 0 => .rfl
  | _, count + 1 => by
    refine .charged <| htest.bind fun _ _ _ hv => .after (Step.truth hv) fun b _ => .ite ?_ .rfl
    refine hbody.bind fun Q _ flow _ => ?_
    cases flow with
    | next => exact .whileRounds htest hbody Q count
    | cont => exact .whileRounds htest hbody Q count
    | _ => exact .rfl

end Lockstep

/-! ### Programs that match -/

/-- Functions that have partners come to the same result in the same state, called in either program. -/
def CallsInLockstep (L : Labelling) (fuel : UInt64) (concealed : String → Prop)
    (call call' : Label → List Value → Exec Value) : Prop :=
  ∀ V P l args, (∀ x, V.globals x → concealed x) → L.rel l l → Values.Agree L P args args →
    Lockstep L fuel V P (call l args) (call' l args)

/-- Parts that are exchanged come to the same result in the same state, and a function stands for itself
only. -/
structure Exchange.Exact (X : Exchange) (L : Labelling) (fuel : UInt64)
    (call call' : Label → List Value → Exec Value) : Prop where
  holds : X.Holds (.even L fuel) call call'
  calls : CallsInLockstep L fuel X.concealed call call'
  eq : ∀ {l l'}, X.labels.rel l l' → l = l'
  expr : ∀ {e e'}, X.expr e e' → ∀ V P,
    Lockstep L fuel V P (e.eval ⟨{ fuel }, call⟩) (e'.eval ⟨{ fuel }, call'⟩)
  part : ∀ {owner p p' V}, X.part owner p p' → V.Fits X owner → ∀ P,
    Lockstep L fuel V P (Block.exec ⟨{ fuel }, call⟩ p) (Block.exec ⟨{ fuel }, call'⟩ p')
  body : ∀ {owner b b' V}, X.body b b' → V.Fits X owner → ∀ P,
    Lockstep L fuel V P (Block.exec ⟨{ fuel }, call⟩ b) (Block.exec ⟨{ fuel }, call'⟩ b')

section

variable {X : Exchange} {owner : Option Label} {call call' : Label → List Value → Exec Value}

theorem CallsInLockstep.callValue {concealed : String → Prop} (h : CallsInLockstep L fuel concealed call call')
    (hV : ∀ x, V.globals x → concealed x) {f : Value} {args : List Value} (hf : f.Agree L P f)
    (hargs : Values.Agree L P args args) :
    Lockstep L fuel V P (callValue ⟨{ fuel }, call⟩ f args) (callValue ⟨{ fuel }, call'⟩ f args) := by
  cases hf with
  | function hl => exact h _ _ _ _ hV hl hargs
  | _ => exact .rfl

mutual

theorem Expr.Matches.lockstep (hX : X.Exact L fuel call call') (hV : V.Fits X owner) {e e' : Expr Label}
    (h : e.Matches X owner e') (P : Pairing) :
    Lockstep L fuel V P (e.eval ⟨{ fuel }, call⟩) (e'.eval ⟨{ fuel }, call'⟩) :=
  match h with
  | .exchanged h => hX.expr h V P
  | .name .. | .constant .. | .attribute .. => fun _ _ => rfl
  | .list _ _ h => .charged ((h.lockstep hX hV P).before _)
  | .comprehension l l' kind hx helement hsource hcond => by
    rw [Expr.eval_comprehension, Expr.eval_comprehension]
    refine .charged <| (hsource.lockstep hX hV P).bind (hsource.sim hX.holds hV P 0) fun _ _ _ hv => ?_
    exact .runComprehension _ (hcond.lockstep hX hV)
      ⟨helement.lockstep hX hV, fun Q => helement.sim hX.holds hV Q 0⟩ hv
  | .binary _ _ op hleft hright => .charged <|
    (hleft.lockstep hX hV P).bind (hleft.sim hX.holds hV P 0) fun Q _ _ _ => (hright.lockstep hX hV Q).before _
  | .unary _ _ op h => .charged ((h.lockstep hX hV P).before _)
  | .logic _ _ op hleft hright => .charged <|
    (hleft.lockstep hX hV P).bind (hleft.sim hX.holds hV P 0) fun Q _ _ ha =>
      .after (Step.truth ha) fun _ _ => .ite .rfl (hright.lockstep hX hV Q)
  | .compare _ _ op hleft hright => .charged <|
    (hleft.lockstep hX hV P).bind (hleft.sim hX.holds hV P 0) fun Q _ _ _ => (hright.lockstep hX hV Q).before _
  | .method _ _ _ _ attr h hargs => .charged <|
    (h.lockstep hX hV P).bind (h.sim hX.holds hV P 0) fun Q _ _ _ => (hargs.lockstep hX hV Q).before _
  | .call _ _ hleft hright h hargs => by
    rw [Expr.eval_call _ _ _ hleft, Expr.eval_call _ _ _ hright]
    refine .charged <| (h.lockstep hX hV P).bind (h.sim hX.holds hV P 0) fun Q _ _ hf => ?_
    refine (hargs.lockstep hX hV Q).bind (hargs.sim hX.holds hV Q 0) fun _ hle _ hvs => ?_
    exact hX.calls.callValue hV.globals (hf.mono hle) hvs
  | .subscript _ _ h hindex => .charged <|
    (h.lockstep hX hV P).bind (h.sim hX.holds hV P 0) fun Q _ _ _ => (hindex.lockstep hX hV Q).before _

theorem Exprs.Matches.lockstep (hX : X.Exact L fuel call call') (hV : V.Fits X owner) {es es' : List (Expr Label)}
    (h : Exprs.Matches X owner es es') (P : Pairing) :
    Lockstep L fuel V P (Expr.evalAll ⟨{ fuel }, call⟩ es) (Expr.evalAll ⟨{ fuel }, call'⟩ es') :=
  match h with
  | .nil => .rfl
  | .cons h hrest => (h.lockstep hX hV P).bind (h.sim hX.holds hV P 0) fun Q _ _ _ =>
    (hrest.lockstep hX hV Q).before _

theorem Cond.Matches.lockstep (hX : X.Exact L fuel call call') (hV : V.Fits X owner)
    {cond cond' : Option (Expr Label)} (h : Cond.Matches X owner cond cond') :
    Option.Rel (InLockstep L fuel V (Value.Agree L))
      (cond.map fun e => e.eval ⟨{ fuel }, call⟩) (cond'.map fun e => e.eval ⟨{ fuel }, call'⟩) :=
  match h with
  | .none => .none
  | .some h => .some ⟨h.lockstep hX hV, fun P => h.sim hX.holds hV P 0⟩

end

theorem Expr.Matches.inLockstep (hX : X.Exact L fuel call call') (hV : V.Fits X owner) {e e' : Expr Label}
    (h : e.Matches X owner e') : InLockstep L fuel V (Value.Agree L) (e.eval ⟨{ fuel }, call⟩)
      (e'.eval ⟨{ fuel }, call'⟩) :=
  ⟨h.lockstep hX hV, fun P => h.sim hX.holds hV P 0⟩

theorem Expr.Matches.store_lockstep (hX : X.Exact L fuel call call') (hV : V.Fits X owner)
    {target target' : Expr Label} (h : target.Matches X owner target') (v : Value) (P : Pairing) :
    Lockstep L fuel V P (ProgramBreeding.store ⟨{ fuel }, call⟩ v target)
      (ProgramBreeding.store ⟨{ fuel }, call'⟩ v target') := by
  cases h with
  | exchanged h =>
    obtain ⟨hleft, hright⟩ := X.not_assignable h
    rw [store_eq_raise hleft, store_eq_raise hright]
    exact .rfl
  | subscript _ _ h hindex =>
    exact (h.inLockstep hX hV).bind fun Q _ _ _ => (hindex.lockstep hX hV Q).before _
  | _ => exact .rfl

theorem Expr.Matches.augment_lockstep (hX : X.Exact L fuel call call') (hV : V.Fits X owner)
    {target target' : Expr Label} (h : target.Matches X owner target') (op : BinaryOp) {current operand : Value}
    (hcurrent : current.Agree L P current) (hoperand : operand.Agree L P operand) :
    Lockstep L fuel V P (ProgramBreeding.augment ⟨{ fuel }, call⟩ target op current operand)
      (ProgramBreeding.augment ⟨{ fuel }, call'⟩ target' op current operand) := by
  unfold ProgramBreeding.augment
  split
  · exact .rfl
  · exact Lockstep.rfl.bind (Sim.binaryOp op hcurrent hoperand) fun Q _ result _ => h.store_lockstep hX hV result Q

/-- What comes after a statement or a block is reached in the same state. -/
theorem InLockstep.followedBy {m m' rest rest' : Exec Flow} (h : InLockstep L fuel V (Flow.Agree L) m m')
    (hrest : ∀ Q, Lockstep L fuel V Q rest rest') (P : Pairing) :
    Lockstep L fuel V P
      (do
        match ← m with
        | .next => rest
        | flow => return flow)
      (do
        match ← m' with
        | .next => rest'
        | flow => return flow) := by
  refine h.bind fun Q _ flow _ => ?_
  cases flow with
  | next => exact hrest Q
  | _ => exact .rfl

mutual

theorem Stmt.Matches.lockstep {owner : Option Label} (hX : X.Exact L fuel call call') (hV : V.Fits X owner)
    {s s' : Stmt Label} (h : s.Matches X owner s') (P : Pairing) :
    Lockstep L fuel V P (s.exec ⟨{ fuel }, call⟩) (s'.exec ⟨{ fuel }, call'⟩) :=
  match h with
  | .functionDef hl _ _ _ => by
    cases hX.eq hl
    exact fun _ _ => rfl
  | .ret .. | .pass .. | .brk .. | .cont .. => fun _ _ => rfl
  | .retValue _ _ h => .charged ((h.lockstep hX hV P).before _)
  | .assign _ _ _ htarget h => .charged <| (h.inLockstep hX hV).bind fun Q _ v _ =>
    (htarget.store_lockstep hX hV v Q).before _
  | .augAssign _ _ op _ htarget h => .charged <| (htarget.inLockstep hX hV).bind fun _ _ _ hv =>
    (h.inLockstep hX hV).bind fun _ hle _ hoperand =>
      (htarget.augment_lockstep hX hV op (hv.mono hle) hoperand).before _
  | .forLoop _ _ _ hsource h => .charged <| (hsource.inLockstep hX hV).bind fun Q _ _ hv =>
    .after (Step.iterate hv) fun _ hitems =>
      .forRounds _ ⟨h.lockstep hX hV, fun R => h.sim hX.holds hV R 0⟩ Q hitems
  | .whileLoop _ _ htest h => .charged <|
    .whileRounds (htest.inLockstep hX hV) ⟨h.lockstep hX hV, fun R => h.sim hX.holds hV R 0⟩ P _
  | .ifElse _ _ htest h horelse => .charged <| (htest.inLockstep hX hV).bind fun Q _ _ hv =>
    .after (Step.truth hv) fun _ _ => .ite (h.lockstep hX hV Q) (horelse.lockstep hX hV Q)
  | .expr _ _ h => .charged (((h.lockstep hX hV P).before _).before _)

theorem Block.Matches.lockstep {owner : Option Label} (hX : X.Exact L fuel call call') (hV : V.Fits X owner)
    {b b' : List (Stmt Label)} (h : Block.Matches X owner b b') (P : Pairing) :
    Lockstep L fuel V P (Block.exec ⟨{ fuel }, call⟩ b) (Block.exec ⟨{ fuel }, call'⟩ b') :=
  match h with
  | .nil => .rfl
  | .cons h hrest => by
    rw [Block.exec, Block.exec]
    exact InLockstep.followedBy ⟨h.lockstep hX hV, fun Q => h.sim hX.holds hV Q 0⟩ (hrest.lockstep hX hV) P
  | .exchanged h hrest => by
    rw [Block.exec_append, Block.exec_append]
    exact InLockstep.followedBy ⟨hX.part h hV, fun Q => hX.holds.part h hV Q 0⟩ (hrest.lockstep hX hV) P

theorem Body.Matches.lockstep {owner : Option Label} (hX : X.Exact L fuel call call') (hV : V.Fits X owner)
    {b b' : List (Stmt Label)} (h : Body.Matches X owner b b') (P : Pairing) :
    Lockstep L fuel V P (Block.exec ⟨{ fuel }, call⟩ b) (Block.exec ⟨{ fuel }, call'⟩ b') :=
  match h with
  | .block h => h.lockstep hX hV P
  | .exchanged h => hX.body h hV P

end

/-- Where nothing may differ, a block does exactly the same in two runs whose calls do. -/
theorem Exchange.IsOpen.lockstep (hX : X.IsOpen) (hholds : X.Holds (.even L fuel) call call')
    (hcalls : CallsInLockstep L fuel X.concealed call call') (hunique : ∀ {l l'}, L.rel l l' → l = l')
    (hV : V.Fits X owner) {body : Block Label} (h : ∀ l ∈ Block.functionLabels body, L.rel l l) (P : Pairing) :
    Lockstep L fuel V P (Block.exec ⟨{ fuel }, call⟩ body) (Block.exec ⟨{ fuel }, call'⟩ body) := by
  let Y : Exchange := .within (.even L fuel) X.concealed V
  have hY : Y.IsOpen := ⟨fun _ x hx => hX.hidden owner x (hV.top ▸ hx), fun _ => trivial⟩
  have hholds' : Y.Holds (.even L fuel) call call' := Exchange.within_holds hholds.calls
  have hexact : Y.Exact L fuel call call' := ⟨hholds', hcalls, hunique, False.elim, False.elim, False.elim⟩
  obtain ⟨owner', hfits⟩ := (hV.isSound.fits : ∃ owner', V.Fits (.within (.even L fuel) X.concealed V) owner')
  have hmatches : Block.Matches Y owner' body body := hY.block body h
  exact hmatches.lockstep hexact hfits P

/-! ### Runs -/

/-- By induction on the calls that may still be nested. -/
theorem callFunction_lockstep {fs fs' : List (Label × FunctionDef)} (hlabels : X.labels = L) (hconceals : X.Conceals)
    (hX : ∀ call call', CallsAlike (.even L fuel) X.concealed call call' →
      CallsInLockstep L fuel X.concealed call call' → X.Exact L fuel call call') (hcall : CanCall X fs fs')
    (halike : ∀ depth, CallsAlike (.even L fuel) X.concealed (callFunction fs { fuel } depth)
      (callFunction fs' { fuel } depth)) (depth : Nat) :
    CallsInLockstep L fuel X.concealed (callFunction fs { fuel } depth) (callFunction fs' { fuel } depth) := by
  induction depth with
  | zero =>
    intro V P l args _ hl hargs
    obtain ⟨f, f', hf, hf', hname, hparams, -⟩ := hcall l l (hlabels ▸ hl)
    unfold callFunction
    rw [hf, hf']
    dsimp only
    rw [hname, hparams]
    exact .rfl
  | succ depth ih =>
    intro V P l args hV hl hargs
    obtain ⟨f, f', hf, hf', hname, hparams, -, hbody⟩ := hcall l l (hlabels ▸ hl)
    unfold callFunction
    rw [hf, hf']
    dsimp only
    rw [hname, hparams]
    refine .ite .rfl ?_
    have hfits := X.fits_push hconceals l hV
    have hframe : Scope.Agree (.even L fuel) P (X.hidden (some l)) (f.params.zip args) (f.params.zip args) :=
      Scope.agree_zip hargs fun _ _ => trivial
    exact (Lockstep.inFrame hframe (hbody.lockstep (hX _ _ (halike depth) ih) hfits P)).before _

end

/-- Whatever is called under whatever budget, the other program comes to the same value or error, also for
want of fuel, and to the same state: it has written the same and spent the same. -/
def Program.IndistinguishableFrom (p p' : Program) : Prop :=
  ∀ (fuel : UInt64) (name : String) (args : List Datum),
    (p'.perform { fuel } name args).run {} = (p.perform { fuel } name args).run {}

namespace Program

variable {X : Exchange} {p p' : Program}

/-- Programs that match up to parts that do exactly the same cannot be told apart. -/
theorem Matches.indistinguishable (h : p.Matches X p') (hopen : X.IsOpen)
    (hholds : ∀ (S : Setting) call call', X.Suits S → CallsAlike S X.concealed call call' → X.Holds S call call')
    (hexact : ∀ fuel call call', X.Holds (.even X.labels fuel) call call' →
      CallsInLockstep X.labels fuel X.concealed call call' → X.Exact X.labels fuel call call') :
    p.IndistinguishableFrom p' := by
  intro fuel name args
  have hsuits : X.Suits (.even X.labels fuel) := ⟨rfl, fun _ => trivial⟩
  have halike := callFunction_alike hsuits h.conceals (fun _ => hholds _ _ _ hsuits) h.functions
  have hX : ∀ call call', CallsAlike (.even X.labels fuel) X.concealed call call' →
      CallsInLockstep X.labels fuel X.concealed call call' → X.Exact X.labels fuel call call' :=
    fun call call' hcalls => hexact fuel call call' (hholds _ _ _ hsuits hcalls)
  have hcalls := callFunction_lockstep rfl h.conceals hX h.functions halike maxCallDepth
  have hcall (P : Pairing) :
      Lockstep X.labels fuel (start X) P (p.call { fuel } name args) (p'.call { fuel } name args) := by
    refine .get fun s hs => ?_
    have hglobal := hs.globals.values name (hopen.hidden none name)
    revert hglobal
    generalize s.globals.get? name = found
    rintro (hv | ⟨⟩)
    · cases hv with
      | function hl =>
        refine Lockstep.rfl.bind (Sim.ofData P args) fun Q _ _ hvs => ?_
        exact (hcalls (start X) Q _ _ h.globals hl hvs).before _
      | _ => exact .rfl
    · exact .rfl
  have hload : Lockstep X.labels fuel (start X) .empty (p.load { fuel }) (p'.load { fuel }) :=
    (h.body.lockstep (hX _ _ (halike _) hcalls) h.start_fits _).before _
  have hloadSim : Sim (.even X.labels fuel) (start X) .empty 0 0 (fun _ _ _ => True) (p.load { fuel })
      (p'.load { fuel }) :=
    (h.body.sim (hholds _ _ _ hsuits (halike _)) h.start_fits _ _).bind fun _ _ _ _ _ => .pure trivial
  exact (hload.bind hloadSim fun Q _ _ _ => hcall Q) {} agree_start

end Program

end ProgramBreeding

import ProgramBreeding.Execution.Session

/-!
# The steps that runs are made of

Whatever a program does is composed of steps of a few kinds.  Facts that hold of the steps
and carry over to what is composed of them hold of all runs, and need no look at the
syntax of programs.

## Main definitions

* `Quiet` — actions that change lists and output only, and are never aborted.
* `Metered` — actions that are composed of quiet steps, charges and changes of variables.
* `Expr.eval_metered`, `Stmt.exec_metered`, `callFunction_metered` — what programs do is
  composed in this way.
* `StepInvariant` — a relation of states that every step keeps.
* `Metered.leads` — what every step keeps, every composed action keeps.

## Design notes

A metered action is a function of the budget, so that the same action can be looked at
under several budgets.  Besides, it says which variables of the open scope may have
another value afterwards: an expression changes none, and a statement any.
-/

namespace ProgramBreeding

variable {α β : Type}

/-- The state in which an action ends. -/
def endState : EStateM.Result Stop State α → State
  | .ok _ s => s
  | .error _ s => s

/-- The same end in another state. -/
def endIn (f : State → State) : EStateM.Result Stop State α → EStateM.Result Stop State α
  | .ok a s => .ok a (f s)
  | .error e s => .error e (f s)

@[simp] theorem endState_endIn (f : State → State) (r : EStateM.Result Stop State α) :
    endState (endIn f r) = f (endState r) := by
  cases r <;> rfl

theorem shielding_run (x : String) (m : Exec α) (s : State) :
    (shielding x m).run s =
      endIn (fun t => t.restore x (s.scope.get? x))
        (m.run (s.updateScope fun scope => scope.erase x)) := by
  simp only [EStateM.run, shielding]
  split <;> simp only [*, endIn]

/-- The state after a scope has been given up. -/
def State.leaveFrame (s : State) : State := { s with frames := s.frames.tail }

theorem inFrame_run (frame : Scope) (m : Exec α) (s : State) :
    (inFrame frame m).run s =
      endIn State.leaveFrame (m.run { s with frames := frame :: s.frames }) := by
  simp only [EStateM.run, inFrame]
  split <;> simp only [*, endIn, State.leaveFrame]

/-- An action that changes lists and output only, and is never aborted. -/
structure Quiet (m : Exec α) : Prop where
  ends : ∀ s : State, ∃ heap output, endState (m.run s) = { s with heap, output }
  goesOn : ∀ s t : State, m.run s ≠ .error .overflow t

namespace Quiet

variable {m : Exec α} {f : α → Exec β}

/-- What always yields a result is not aborted. -/
theorem of_ok (h : ∀ s : State, ∃ a heap output, m.run s = .ok a { s with heap, output }) : Quiet m where
  ends s := by
    obtain ⟨a, heap, output, hrun⟩ := h s
    exact ⟨heap, output, by rw [hrun]; rfl⟩
  goesOn s t hrun := by
    obtain ⟨a, heap, output, hok⟩ := h s
    cases hok.symm.trans hrun

@[simp] protected theorem pure (a : α) : Quiet (pure a) :=
  .of_ok fun s => ⟨a, s.heap, s.output, rfl⟩

protected theorem throw {e : Stop} (h : e ≠ .overflow) : Quiet (throw e : Exec α) where
  ends s := ⟨s.heap, s.output, rfl⟩
  goesOn s t hrun := by
    cases hrun
    exact h rfl

@[simp] protected theorem raise (fault : Fault) : Quiet (raise fault : Exec α) := .throw (by simp)

@[simp] protected theorem get : Quiet (get : Exec State) :=
  .of_ok fun s => ⟨s, s.heap, s.output, rfl⟩

@[simp] protected theorem bind (hm : Quiet m) (hf : ∀ a, Quiet (f a)) : Quiet (m >>= f) := by
  constructor
  · intro s
    obtain ⟨heap, output, hend⟩ := hm.ends s
    rw [EStateM.run_bind]
    cases hrun : m.run s with
    | error e t =>
      rw [hrun] at hend
      exact ⟨heap, output, hend⟩
    | ok a t =>
      rw [hrun] at hend
      obtain ⟨heap', output', hend'⟩ := (hf a).ends t
      exact ⟨heap', output', hend'.trans (by rw [show t = _ from hend])⟩
  · intro s t
    rw [EStateM.run_bind]
    cases hrun : m.run s with
    | error e u =>
      intro h
      cases h
      exact hm.goesOn s t hrun
    | ok a u => exact (hf a).goesOn u t

@[simp] protected theorem ite {p : Prop} [Decidable p] {n : Exec α} (hm : p → Quiet m)
    (hn : ¬ p → Quiet n) : Quiet (if p then m else n) := by
  split
  · exact hm ‹_›
  · exact hn ‹_›

@[simp] protected theorem ofExcept (x : Except Fault α) : Quiet (ofExcept x) := by
  cases x with
  | ok a => exact .pure a
  | error fault => exact .raise fault

@[simp] protected theorem newList (items : Array Value) : Quiet (newList items) :=
  .of_ok fun s => ⟨.list s.heap.size, s.heap.push items, s.output, rfl⟩

@[simp] protected theorem itemsOf (ref : Ref) : Quiet (itemsOf ref) :=
  .of_ok fun s => ⟨s.heap.items ref, s.heap, s.output, rfl⟩

@[simp] protected theorem updateList (ref : Ref) (f : Array Value → Array Value) :
    Quiet (updateList ref f) :=
  .of_ok fun s => ⟨(), s.heap.modify ref f, s.output, rfl⟩

@[simp] protected theorem iterate (v : Value) : Quiet (iterate v) := by
  cases v <;> simp [iterate]

@[simp] protected theorem truth (v : Value) : Quiet (truth v) :=
  .of_ok fun s => ⟨v.isTruthy s.heap, s.heap, s.output, rfl⟩

@[simp] protected theorem getVar (name : String) : Quiet (getVar name) := by
  refine .bind .get fun s => ?_
  cases s.lookup name <;> simp

@[simp] protected theorem writeLine (line : String) : Quiet (writeLine line) := by
  refine .of_ok fun s => ⟨(), ?_⟩
  by_cases hroom : s.output.utf8ByteSize + line.utf8ByteSize < maxOutput
  · exact ⟨s.heap, s.output ++ line ++ "\n", by simp [writeLine, hroom]⟩
  · exact ⟨s.heap, s.output, by simp [writeLine, hroom]⟩

/-! ### Operators and elements -/

@[simp] protected theorem numberOp (op : BinaryOp) (a b : Value) : Quiet (numberOp op a b) := by
  unfold numberOp
  split
  · exact .bind (.ofExcept _) fun _ => .pure _
  · exact .raise _

@[simp] protected theorem repeatText (text : String) (count : Int64) :
    Quiet (repeatText text count) :=
  .bind (.ofExcept _) fun _ => .pure _

@[simp] protected theorem repeatList (ref : Ref) (count : Int64) :
    Quiet (repeatList ref count) :=
  .bind (.itemsOf ref) fun _ => .bind (.ofExcept _) fun _ => .newList _

@[simp] protected theorem binaryOp (op : BinaryOp) (a b : Value) : Quiet (binaryOp op a b) := by
  unfold binaryOp
  split
  · exact .ite (fun _ => .raise _) fun _ => .pure _
  · refine .bind (.itemsOf _) fun _ => .bind (.itemsOf _) fun _ => ?_
    exact .ite (fun _ => .bind (.raise _) fun _ => .newList _) fun _ => .newList _
  all_goals first | exact .numberOp .. | split <;> simp

protected theorem signValue (op : UnaryOp) (a : Value) : Quiet (signValue op a) := by
  unfold signValue
  split
  · exact .bind (.ofExcept _) fun _ => .pure _
  · exact .raise _

@[simp] protected theorem signOp (op : UnaryOp) (a : Value) : Quiet (signOp op a) := by
  unfold signOp
  split
  · exact .bind (.truth a) fun _ => .pure _
  · exact .signValue ..

@[simp] protected theorem elementAt (container index : Value) :
    Quiet (elementAt container index) := by
  unfold elementAt
  split
  · exact .bind (.itemsOf _) fun _ => .bind (.ofExcept _) fun _ => .pure _
  · exact .bind (.ofExcept _) fun _ => .pure _
  · exact .raise _

@[simp] protected theorem storeItem (container index value : Value) :
    Quiet (storeItem container index value) := by
  unfold storeItem
  split
  · exact .bind (.itemsOf _) fun _ => .bind (.ofExcept _) fun _ => .updateList _ _
  · exact .raise _

/-! ### Arguments -/

protected theorem requireCount (name : String) (args : List Value) (least greatest : Nat) :
    Quiet (requireCount name args least greatest) := by
  unfold requireCount
  exact .ite (fun _ => .pure _) fun _ => .ite (fun _ => .raise _) fun _ => .raise _

protected theorem soleArgument (method : String) (args : List Value) :
    Quiet (soleArgument method args) :=
  .bind (.requireCount ..) fun _ => .pure _

protected theorem requireNone (method : String) (args : List Value) :
    Quiet (requireNone method args) :=
  .requireCount ..

/-! ### What built-in functions and methods do with their arguments -/

protected theorem countValue (n : Nat) : Quiet (countValue n) := by
  unfold countValue
  split <;> simp

protected theorem lengthOf (v : Value) : Quiet (lengthOf v) := by
  cases v with
  | list ref => exact .bind (.itemsOf ref) fun _ => .countValue _
  | str s => exact .countValue _
  | _ => exact .raise _

protected theorem addAll (total : Value) (vs : List Value) : Quiet (addAll total vs) := by
  induction vs generalizing total with
  | nil => exact .pure total
  | cons v rest ih => exact .bind (.binaryOp ..) fun total => ih total

protected theorem bestOf (wanted : Ordering) (best : Value) (vs : List Value) :
    Quiet (bestOf wanted best vs) := by
  induction vs generalizing best with
  | nil => exact .pure best
  | cons v rest ih => exact .bind .get fun _ => .bind (.ofExcept _) fun _ => ih _

protected theorem toInteger (v : Value) : Quiet (toInteger v) := by
  unfold toInteger
  split <;> split <;> simp

protected theorem toDouble (v : Value) : Quiet (toDouble v) := by
  unfold toDouble
  split
  · exact .pure _
  all_goals split <;> simp

protected theorem absolute (v : Value) : Quiet (absolute v) := by
  unfold absolute
  split
  · exact .pure _
  · split
    · exact .raise _
    · split <;> simp

protected theorem newTexts (texts : List String) : Quiet (newTexts texts) := .newList _

protected theorem boundedText (text : String) : Quiet (boundedText text) :=
  .ite (fun _ => .raise _) fun _ => .pure _

/-! ### Plain data -/

mutual

protected theorem ofDatum : ∀ d : Datum, Quiet (Value.ofDatum d)
  | .none => .pure _
  | .bool _ => .pure _
  | .int _ => .pure _
  | .float _ => .pure _
  | .str _ => .pure _
  | .list items => .bind (Quiet.ofData items) fun _ => .newList _

protected theorem ofData : ∀ ds : List Datum, Quiet (Value.ofData ds)
  | [] => .pure _
  | d :: rest => .bind (Quiet.ofDatum d) fun _ => .bind (Quiet.ofData rest) fun _ => .pure _

end

end Quiet

/-! ### Composed actions -/

/-- An action composed of quiet steps, charges and changes of variables, where only the
given variables of the open scope may have another value afterwards. -/
inductive Metered : (String → Prop) → {α : Type} → (Budget → Exec α) → Prop
  | quiet {names : String → Prop} {α : Type} {m : Exec α} (h : Quiet m) : Metered names fun _ => m
  | charge {names : String → Prop} (units : UInt64)
      (h : IsPrice units := by first | exact isPrice_cost _ | exact isPrice_one) :
      Metered names fun budget => charge budget units
  | bind {names : String → Prop} {α β : Type} {m : Budget → Exec α} {f : Budget → α → Exec β}
      (hm : Metered names m) (hf : ∀ a, Metered names fun budget => f budget a) :
      Metered names fun budget => m budget >>= f budget
  | setVar {names : String → Prop} {x : String} (value : Value) (hx : names x) :
      Metered names fun _ => setVar x value
  | shielding {names : String → Prop} {α : Type} {x : String} {m : Budget → Exec α}
      (h : Metered (fun y => y = x ∨ names y) m) :
      Metered names fun budget => shielding x (m budget)
  | inFrame {names : String → Prop} {α : Type} (frame : Scope) {m : Budget → Exec α}
      (h : Metered (fun _ => True) m) : Metered names fun budget => inFrame frame (m budget)
  | loop {names : String → Prop} {test : Budget → Exec Value} {body : Budget → Exec Flow}
      (htest : Metered names test) (hbody : Metered names body) :
      Metered names fun budget =>
        whileRounds budget (test budget) (body budget) (budget.fuel.toNat + 1)

namespace Metered

variable {names : String → Prop} {m n : Budget → Exec α}

protected theorem pure (a : α) : Metered names fun _ => pure a := .quiet (.pure a)

protected theorem raise (fault : Fault) : Metered names fun _ => (raise fault : Exec α) :=
  .quiet (.raise fault)

protected theorem ite {p : Prop} [Decidable p] (hm : p → Metered names m)
    (hn : ¬ p → Metered names n) :
    Metered names fun budget => if p then m budget else n budget := by
  by_cases h : p
  · simpa only [if_pos h] using hm h
  · simpa only [if_neg h] using hn h

/-! ### Built-in functions and methods -/

protected theorem callRange (args : List Value) :
    Metered names fun budget => callRange budget args := by
  refine .bind (.quiet (.requireCount ..)) fun _ => .bind (.quiet (.ofExcept _)) fun bounds => ?_
  obtain ⟨start, stop, step⟩ := rangeBounds bounds
  refine .ite (fun _ => .bind (.raise _) fun _ => ?_) fun _ => ?_
  all_goals
    refine .bind (.charge _) fun _ => ?_
    exact .ite (fun _ => .bind (.raise _) fun _ => .quiet (.newList _)) fun _ => .quiet (.newList _)

protected theorem bestOfAll (name : String) (wanted : Ordering) (items : List Value) :
    Metered names fun budget => bestOfAll budget name wanted items := by
  refine .bind (.charge _) fun _ => .quiet ?_
  cases items with
  | nil => exact .raise _
  | cons first rest => exact .bestOf ..

protected theorem callExtremum (name : String) (wanted : Ordering) (args : List Value) :
    Metered names fun budget => callExtremum budget name wanted args := by
  cases args with
  | nil => exact .raise _
  | cons v rest =>
    cases rest with
    | nil => exact .bind (.quiet (.iterate v)) fun items => .bestOfAll name wanted _
    | cons v' rest => exact .bestOfAll name wanted _

protected theorem soleItems (name : String) (args : List Value) :
    Metered names fun budget => soleItems budget name args :=
  .bind (.quiet (.requireCount ..)) fun _ => .bind (.quiet (.iterate _)) fun _ =>
    .bind (.charge _) fun _ => .pure _

protected theorem callBuiltin (builtin : Builtin) (args : List Value) :
    Metered names fun budget => callBuiltin budget builtin args := by
  cases builtin with
  | len =>
    exact .bind (.quiet (.requireCount ..)) fun _ => .bind (.charge 1) fun _ =>
      .quiet (.lengthOf _)
  | sum =>
    exact .bind (.quiet (.requireCount ..)) fun _ => .bind (.quiet (.iterate _)) fun _ =>
      .bind (.charge _) fun _ => .quiet (.addAll ..)
  | range => exact .callRange args
  | min => exact .callExtremum ..
  | max => exact .callExtremum ..
  | abs =>
    exact .bind (.quiet (.requireCount ..)) fun _ => .bind (.charge 1) fun _ =>
      .quiet (.absolute _)
  | list =>
    have hmake (items : Array Value) : Metered names (fun budget => do
        ProgramBreeding.charge budget (cost items.size)
        newList items) := .bind (.charge _) fun _ => .quiet (.newList _)
    refine .bind (.quiet (.requireCount ..)) fun _ => ?_
    cases args with
    | nil => exact .bind (.pure _) hmake
    | cons v rest => exact .bind (.quiet (.iterate v)) hmake
  | sorted =>
    exact .bind (.soleItems ..) fun _ => .bind (.quiet .get) fun _ =>
      .bind (.quiet (.ofExcept _)) fun _ => .quiet (.newList _)
  | any => exact .bind (.soleItems ..) fun _ => .bind (.quiet .get) fun _ => .pure _
  | all => exact .bind (.soleItems ..) fun _ => .bind (.quiet .get) fun _ => .pure _
  | print =>
    exact .bind (.quiet .get) fun _ => .bind (.charge _) fun _ =>
      .bind (.quiet (.writeLine _)) fun _ => .pure _
  | int =>
    refine .bind (.quiet (.requireCount ..)) fun _ => .bind (.charge 1) fun _ => ?_
    cases args with
    | nil => exact .pure _
    | cons v rest => exact .quiet (.toInteger v)
  | float =>
    refine .bind (.quiet (.requireCount ..)) fun _ => .bind (.charge 1) fun _ => ?_
    cases args with
    | nil => exact .pure _
    | cons v rest => exact .quiet (.toDouble v)
  | str =>
    exact .bind (.quiet (.requireCount ..)) fun _ => .bind (.quiet .get) fun _ =>
      .bind (.charge _) fun _ => .pure _
  | bool =>
    refine .bind (.quiet (.requireCount ..)) fun _ => .bind (.charge 1) fun _ => ?_
    cases args with
    | nil => exact .pure _
    | cons v rest => exact .bind (.quiet (.truth v)) fun _ => .pure _


protected theorem callListMethod (ref : Ref) (method : String) (args : List Value) :
    Metered names fun budget => callListMethod budget ref method args := by
  refine .bind (.quiet (.itemsOf ref)) fun items => ?_
  dsimp only
  split
  · refine .bind (.quiet (.soleArgument ..)) fun v => .bind (.charge 1) fun _ => .quiet ?_
    refine .ite (fun _ => .bind (.raise _) fun _ => ?_) fun _ => ?_
    all_goals exact .bind (.updateList ..) fun _ => .pure _
  · refine .bind (.quiet (.soleArgument ..)) fun v => .bind (.quiet (.iterate v)) fun extra => ?_
    refine .bind (.charge _) fun _ => .quiet ?_
    refine .ite (fun _ => .bind (.raise _) fun _ => ?_) fun _ => ?_
    all_goals exact .bind (.updateList ..) fun _ => .pure _
  · refine .bind (.quiet (.requireCount ..)) fun _ => .bind (.charge _) fun _ => .quiet ?_
    have hpop (position : Nat) : Quiet (do
        let v := (← itemsOf ref).getD position .none
        updateList ref fun items => items.eraseIdxIfInBounds position
        return v) := .bind (.itemsOf ref) fun _ => .bind (.updateList ..) fun _ => .pure _
    refine .ite (fun _ => .bind (.raise _) fun _ => ?_) fun _ => ?_
    all_goals
      cases args with
      | nil => exact .bind (.pure _) hpop
      | cons index rest => exact .bind (.ofExcept _) hpop
  · refine .bind (.quiet (.requireCount ..)) fun _ => .bind (.charge _) fun _ => .quiet ?_
    cases (args.headD .none).int? with
    | none => exact .raise _
    | some raw => exact .bind (.updateList ..) fun _ => .pure _
  · refine .bind (.quiet (.soleArgument ..)) fun v => .bind (.charge _) fun _ => .quiet ?_
    refine .bind .get fun s => ?_
    split
    · exact .countValue _
    · exact .raise _
  · exact .bind (.quiet (.soleArgument ..)) fun v => .bind (.charge _) fun _ =>
      .quiet (.bind .get fun _ => .countValue _)
  · exact .bind (.quiet (.requireNone ..)) fun _ => .bind (.charge _) fun _ =>
      .quiet (.bind (.updateList ..) fun _ => .pure _)
  · exact .bind (.quiet (.requireNone ..)) fun _ => .bind (.charge _) fun _ =>
      .quiet (.bind .get fun _ => .bind (.ofExcept _) fun _ => .bind (.updateList ..) fun _ =>
        .pure _)
  · exact .bind (.quiet (.requireNone ..)) fun _ => .bind (.charge _) fun _ =>
      .quiet (.bind (.itemsOf ref) fun _ => .newList _)
  · exact .raise _

protected theorem callTextMethod (text method : String) (args : List Value) :
    Metered names fun budget => callTextMethod budget text method args := by
  refine .bind (.charge _) fun _ => ?_
  split
  · exact .quiet (.bind (.requireNone ..) fun _ => .pure _)
  · exact .quiet (.bind (.requireNone ..) fun _ => .pure _)
  · exact .quiet (.bind (.requireNone ..) fun _ => .pure _)
  · refine .quiet (.bind (.requireCount ..) fun _ => ?_)
    cases args with
    | nil => exact .newTexts _
    | cons v rest =>
      refine .bind (.ofExcept _) fun _ => .ite (fun _ => .bind (.raise _) fun _ => ?_) fun _ => ?_
      all_goals exact .newTexts _
  · exact .bind (.quiet (.soleArgument ..)) fun v => .bind (.quiet (.iterate v)) fun _ =>
      .bind (.charge _) fun _ => .quiet (.bind (.ofExcept _) fun _ => .boundedText _)
  · exact .quiet (.bind (.soleArgument ..) fun _ => .bind (.ofExcept _) fun _ => .pure _)
  · exact .quiet (.bind (.soleArgument ..) fun _ => .bind (.ofExcept _) fun _ => .pure _)
  · refine .quiet (.bind (.requireCount ..) fun _ => .bind (.ofExcept _) fun _ => ?_)
    refine .bind (.ofExcept _) fun _ => .ite (fun _ => .bind (.raise _) fun _ => ?_) fun _ => ?_
    all_goals exact .boundedText _
  · exact .raise _

protected theorem callMethod (receiver : Value) (method : String) (args : List Value) :
    Metered names fun budget => callMethod budget receiver method args := by
  cases receiver with
  | list ref => exact .callListMethod ref method args
  | str text => exact .callTextMethod text method args
  | _ => exact .raise _

/-! ### Loops -/

protected theorem collect {x : String} {cond : Option (Budget → Exec Value)}
    {element : Budget → Exec Value} (hx : names x) (hcond : ∀ c, cond = some c → Metered names c)
    (helement : Metered names element) (items found : List Value) :
    Metered names fun budget =>
      collect budget x (cond.map fun c => c budget) (element budget) found items := by
  induction items generalizing found with
  | nil => exact .pure _
  | cons item rest ih =>
    refine .bind (.charge 1) fun _ => .bind (.setVar item hx) fun _ => ?_
    have hwanted (wanted : Bool) : Metered names fun budget =>
        if wanted then do
          let v ← element budget
          ProgramBreeding.collect budget x (cond.map fun c => c budget) (element budget)
            (v :: found) rest
        else
          ProgramBreeding.collect budget x (cond.map fun c => c budget) (element budget) found
            rest :=
      .ite (fun _ => .bind helement fun v => ih (v :: found)) fun _ => ih found
    cases cond with
    | none => exact .bind (.pure true) hwanted
    | some c => exact .bind (hcond c rfl) fun v => .bind (.quiet (.truth v)) hwanted

protected theorem runComprehension {x : String} (cond : Option (Budget → Exec Value))
    {element : Budget → Exec Value}
    (hcond : ∀ c, cond = some c → Metered (fun y => y = x ∨ names y) c)
    (helement : Metered (fun y => y = x ∨ names y) element) (source : Value) :
    Metered names fun budget =>
      runComprehension budget x (cond.map fun c => c budget) (element budget) source :=
  .bind (.quiet (.iterate source)) fun items =>
    .bind (.shielding (.collect (.inl rfl) hcond helement items.toList [])) fun _ =>
      .quiet (.newList _)

protected theorem forRounds {x : String} {body : Budget → Exec Flow} (hx : names x)
    (hbody : Metered names body) (items : List Value) :
    Metered names fun budget => forRounds budget x (body budget) items := by
  induction items with
  | nil => exact .pure _
  | cons item rest ih =>
    refine .bind (.charge 1) fun _ => .bind (.setVar item hx) fun _ => .bind hbody fun flow => ?_
    cases flow with
    | brk => exact .pure _
    | ret v => exact .pure _
    | next => exact ih
    | cont => exact ih

end Metered

/-! ### Programs -/

section

variable {names : String → Prop} {call : Budget → Label → List Value → Exec Value}

/-- Calls that leave the variables of all open scopes as they are. -/
def MeteredCalls (call : Budget → Label → List Value → Exec Value) : Prop :=
  ∀ (names : String → Prop) (label : Label) (args : List Value),
    Metered names fun budget => call budget label args

theorem callValue_metered (hcall : MeteredCalls call) (callee : Value) (args : List Value) :
    Metered names fun budget => callValue ⟨budget, call budget⟩ callee args := by
  cases callee with
  | function label => exact hcall names label args
  | builtin builtin => exact .callBuiltin builtin args
  | _ => exact .raise _

mutual

/-- An expression gives no variable another value. -/
theorem Expr.eval_metered (hcall : MeteredCalls call) :
    ∀ (e : Expr Label) (names : String → Prop),
      Metered names fun budget => e.eval ⟨budget, call budget⟩
  | .name _ id, _ => .bind (.charge 1) fun _ => .quiet (.getVar id)
  | .constant .., _ => .bind (.charge 1) fun _ => .pure _
  | .list _ items, names =>
    .bind (.charge 1) fun _ => .bind (Expr.evalAll_metered hcall items names) fun _ =>
      .quiet (.newList _)
  | .comprehension _ _ element x source none, names =>
    .bind (.charge 1) fun _ => .bind (source.eval_metered hcall names) fun v =>
      .runComprehension none nofun (element.eval_metered hcall _) v
  | .comprehension _ _ element x source (some cond), names =>
    .bind (.charge 1) fun _ => .bind (source.eval_metered hcall names) fun v =>
      .runComprehension (some fun budget => cond.eval ⟨budget, call budget⟩)
        (fun _ hc => Option.some.inj hc ▸ cond.eval_metered hcall _)
        (element.eval_metered hcall _) v
  | .binary _ op left right, names =>
    .bind (.charge 1) fun _ => .bind (left.eval_metered hcall names) fun _ =>
      .bind (right.eval_metered hcall names) fun _ => .quiet (.binaryOp ..)
  | .unary _ op operand, names =>
    .bind (.charge 1) fun _ => .bind (operand.eval_metered hcall names) fun _ =>
      .quiet (.signOp ..)
  | .logic _ op left right, names =>
    .bind (.charge 1) fun _ => .bind (left.eval_metered hcall names) fun _ =>
      .bind (.quiet (.truth _)) fun _ =>
        .ite (fun _ => .pure _) fun _ => right.eval_metered hcall names
  | .compare _ op left right, names =>
    .bind (.charge 1) fun _ => .bind (left.eval_metered hcall names) fun _ =>
      .bind (right.eval_metered hcall names) fun _ => .quiet
        (.bind .get fun _ => .bind (.ofExcept _) fun _ => .pure _)
  | .call _ callee args, names => by
    have hargs := Expr.evalAll_metered hcall args names
    have hcallee := callee.eval_metered hcall names
    cases hattribute : callee.isAttribute with
    | true =>
      match callee with
      | .attribute _ value method =>
        exact .bind (.charge 1) fun _ => .bind (value.eval_metered hcall names) fun receiver =>
          .bind hargs fun vs => .callMethod receiver method vs
    | false =>
      simp only [Expr.eval_call _ _ _ hattribute]
      exact .bind (.charge 1) fun _ => .bind hcallee fun f => .bind hargs fun vs =>
        callValue_metered hcall f vs
  | .attribute .., _ => .bind (.charge 1) fun _ => .raise _
  | .subscript _ value index, names =>
    .bind (.charge 1) fun _ => .bind (value.eval_metered hcall names) fun _ =>
      .bind (index.eval_metered hcall names) fun _ => .quiet (.elementAt ..)

theorem Expr.evalAll_metered (hcall : MeteredCalls call) :
    ∀ (es : List (Expr Label)) (names : String → Prop),
      Metered names fun budget => Expr.evalAll ⟨budget, call budget⟩ es
  | [], _ => .pure _
  | e :: rest, names =>
    .bind (e.eval_metered hcall names) fun _ =>
      .bind (Expr.evalAll_metered hcall rest names) fun _ => .pure _

end

theorem store_metered (hcall : MeteredCalls call) (value : Value) (target : Expr Label) :
    Metered (fun _ => True) fun budget => store ⟨budget, call budget⟩ value target := by
  cases target with
  | name label id => exact .setVar value trivial
  | subscript label container index =>
    exact .bind (container.eval_metered hcall _) fun _ => .bind (index.eval_metered hcall _)
      fun _ => .quiet (.storeItem ..)
  | _ => exact .raise _

theorem augment_metered (hcall : MeteredCalls call) (target : Expr Label) (op : BinaryOp)
    (current operand : Value) : Metered (fun _ => True) fun budget =>
      augment ⟨budget, call budget⟩ target op current operand := by
  unfold augment
  split
  · exact .quiet (.bind (.itemsOf _) fun _ => .updateList ..)
  · exact .bind (.quiet (.binaryOp ..)) fun result => store_metered hcall result target

mutual

/-- A statement may give the variables of the open scope other values. -/
theorem Stmt.exec_metered (hcall : MeteredCalls call) : ∀ s : Stmt Label,
    Metered (fun _ => True) fun budget => s.exec ⟨budget, call budget⟩
  | .functionDef .. =>
    .bind (.charge 1) fun _ => .bind (.setVar _ trivial) fun _ => .pure _
  | .ret _ none => .bind (.charge 1) fun _ => .pure _
  | .ret _ (some value) =>
    .bind (.charge 1) fun _ => .bind (value.eval_metered hcall _) fun _ => .pure _
  | .assign _ target value =>
    .bind (.charge 1) fun _ => .bind (value.eval_metered hcall _) fun v =>
      .bind (store_metered hcall v target) fun _ => .pure _
  | .augAssign _ target op value =>
    .bind (.charge 1) fun _ => .bind (target.eval_metered hcall _) fun current =>
      .bind (value.eval_metered hcall _) fun operand =>
        .bind (augment_metered hcall target op current operand) fun _ => .pure _
  | .forLoop _ _ source body =>
    .bind (.charge 1) fun _ => .bind (source.eval_metered hcall _) fun _ =>
      .bind (.quiet (.iterate _)) fun items =>
        .forRounds trivial (Block.exec_metered hcall body) items.toList
  | .whileLoop _ test body =>
    .bind (.charge 1) fun _ => .loop (test.eval_metered hcall _) (Block.exec_metered hcall body)
  | .ifElse _ test body orelse =>
    .bind (.charge 1) fun _ => .bind (test.eval_metered hcall _) fun _ =>
      .bind (.quiet (.truth _)) fun _ => .ite (fun _ => Block.exec_metered hcall body)
        fun _ => Block.exec_metered hcall orelse
  | .expr _ value =>
    .bind (.charge 1) fun _ => .bind (.bind (value.eval_metered hcall _) fun _ => .pure _)
      fun _ => .pure _
  | .pass _ => .bind (.charge 1) fun _ => .pure _
  | .brk _ => .bind (.charge 1) fun _ => .pure _
  | .cont _ => .bind (.charge 1) fun _ => .pure _

theorem Block.exec_metered (hcall : MeteredCalls call) : ∀ body : List (Stmt Label),
    Metered (fun _ => True) fun budget => Block.exec ⟨budget, call budget⟩ body
  | [] => .pure _
  | s :: rest => by
    refine .bind (s.exec_metered hcall) fun flow => ?_
    cases flow with
    | next => exact Block.exec_metered hcall rest
    | _ => exact .pure _

end

end

/-- A call gives no variable of an open scope another value, by induction on how many calls
may still be nested. -/
theorem callFunction_metered (functions : List (Label × FunctionDef)) (depth : Nat) :
    MeteredCalls fun budget => callFunction functions budget depth := by
  induction depth with
  | zero =>
    intro names label args
    show Metered names fun budget => callFunction functions budget 0 label args
    unfold callFunction
    split
    · exact .raise _
    · exact .ite (fun _ => .raise _) fun _ => .quiet (.throw (by simp))
  | succ depth ih =>
    intro names label args
    show Metered names fun budget => callFunction functions budget (depth + 1) label args
    unfold callFunction
    split
    · exact .raise _
    · refine .ite (fun _ => .raise _) fun _ => ?_
      exact .bind (.inFrame _ (Block.exec_metered ih _)) fun _ => .pure _

namespace Program

/-- What an expression of a program does while `depth` more calls may be nested. -/
theorem eval_metered (p : Program) (depth : Nat) (e : Expr Label) (names : String → Prop) :
    Metered names fun budget => e.eval ⟨budget, callFunction p.functions budget depth⟩ :=
  e.eval_metered (callFunction_metered p.functions depth) names

theorem load_metered (p : Program) : Metered (fun _ => True) fun budget => p.load budget :=
  .bind (Block.exec_metered (callFunction_metered p.functions maxCallDepth) p.body) fun _ =>
    .pure _

theorem call_metered (p : Program) (name : String) (args : List Datum) (names : String → Prop) :
    Metered names fun budget => p.call budget name args := by
  refine .bind (.quiet .get) fun s => ?_
  split
  · refine .bind (.quiet (.ofData args)) fun vs => ?_
    refine .bind (callFunction_metered p.functions maxCallDepth names _ vs) fun result => ?_
    exact .quiet (.bind .get fun _ => .ofExcept _)
  · exact .raise _

theorem perform_metered (p : Program) (name : String) (args : List Datum) :
    Metered (fun _ => True) fun budget => p.perform budget name args :=
  .bind p.load_metered fun _ => p.call_metered name args _

end Program

/-! ### What every step keeps -/

/-- A relation between the states before and after something happens that every step keeps;
it may depend on the variables of the open scope that may change meanwhile. -/
structure StepInvariant (R : (String → Prop) → State → State → Prop) : Prop where
  trans : ∀ names s t u, R names s t → R names t u → R names s u
  quiet : ∀ names (s : State) heap output, R names s { s with heap, output }
  charge : ∀ names budget units s, R names s (endState ((charge budget units).run s))
  setVar : ∀ (names : String → Prop) {x : String} (value : Value) (s : State), names x →
    R names s (s.updateScope (Scope.insert x value))
  shielding : ∀ {names x s t}, R (fun y => y = x ∨ names y) (s.updateScope fun scope => scope.erase x) t →
    R names s (t.restore x (s.scope.get? x))
  inFrame : ∀ {names frame s t}, R (fun _ => True) { s with frames := frame :: s.frames } t →
    R names s t.leaveFrame

/-- An action after which a relation holds between the states before and after it. -/
def Leads (R : State → State → Prop) (m : Exec α) : Prop := ∀ s, R s (endState (m.run s))

protected theorem Leads.bind {R : State → State → Prop} (htrans : ∀ s t u, R s t → R t u → R s u)
    {m : Exec α} {f : α → Exec β} (hm : Leads R m) (hf : ∀ a, Leads R (f a)) : Leads R (m >>= f) := by
  intro s
  have hs := hm s
  rw [EStateM.run_bind]
  cases hrun : m.run s with
  | error e t =>
    rw [hrun] at hs
    exact hs
  | ok a t =>
    rw [hrun] at hs
    exact htrans _ _ _ hs (hf a t)

/-- A charge changes the fuel spent and the mark of the next look only. -/
theorem endState_charge (budget : Budget) (units : UInt64) (s : State) : ∃ nextPoll,
    endState ((charge budget units).run s) =
      { s with used := saturatingAdd s.used units, nextPoll } := by
  rw [charge_eq]
  dsimp only
  split
  · exact ⟨s.nextPoll, rfl⟩
  · split
    · split
      · exact ⟨s.nextPoll, rfl⟩
      · -- looking moves the mark, whatever it finds
        refine ⟨saturatingAdd s.used units + pollInterval, ?_⟩
        split
        · rfl
        · split <;> rfl
    · exact ⟨s.nextPoll, rfl⟩

namespace StepInvariant

variable {R : (String → Prop) → State → State → Prop} (names : String → Prop)

theorem leads_quiet (hR : StepInvariant R) {m : Exec α} (h : Quiet m) : Leads (R names) m := by
  intro s
  obtain ⟨heap, output, hend⟩ := h.ends s
  rw [hend]
  exact hR.quiet names s heap output

theorem leads_shielding (hR : StepInvariant R) {x : String} {m : Exec α}
    (h : Leads (R fun y => y = x ∨ names y) m) : Leads (R names) (ProgramBreeding.shielding x m) := by
  intro s
  rw [shielding_run, endState_endIn]
  exact hR.shielding (h _)

theorem leads_inFrame (hR : StepInvariant R) (frame : Scope) {m : Exec α}
    (h : Leads (R fun _ => True) m) : Leads (R names) (ProgramBreeding.inFrame frame m) := by
  intro s
  rw [inFrame_run, endState_endIn]
  exact hR.inFrame (h _)

/-- By induction on the number of rounds that may still be made. -/
theorem leads_whileRounds (hR : StepInvariant R) (budget : Budget) {test : Exec Value}
    {body : Exec Flow} (htest : Leads (R names) test) (hbody : Leads (R names) body) (count : Nat) :
    Leads (R names) (whileRounds budget test body count) := by
  induction count with
  | zero => exact hR.leads_quiet names (.throw (by simp))
  | succ count ih =>
    refine .bind (hR.trans names) (hR.charge names budget 1) fun _ => .bind (hR.trans names) htest fun v => ?_
    refine .bind (hR.trans names) (hR.leads_quiet names (.truth v)) fun b => ?_
    cases b with
    | false => exact hR.leads_quiet names (.pure _)
    | true =>
      refine .bind (hR.trans names) hbody fun flow => ?_
      cases flow with
      | next => exact ih
      | cont => exact ih
      | _ => exact hR.leads_quiet names (.pure _)

end StepInvariant

/-- What every step keeps, every composed action keeps, whether it stops or not. -/
theorem Metered.leads {R : (String → Prop) → State → State → Prop} (hR : StepInvariant R)
    {names : String → Prop} {m : Budget → Exec α} (h : Metered names m) (budget : Budget) :
    Leads (R names) (m budget) := by
  induction h with
  | quiet h => exact hR.leads_quiet _ h
  | charge units _ => exact hR.charge _ budget units
  | bind _ _ ihm ihf => exact .bind (hR.trans _) ihm ihf
  | setVar value hx => exact fun s => hR.setVar _ value s hx
  | shielding _ ih => exact hR.leads_shielding _ ih
  | inFrame frame _ ih => exact hR.leads_inFrame _ frame ih
  | loop _ _ ihtest ihbody => exact hR.leads_whileRounds _ budget ihtest ihbody _

end ProgramBreeding

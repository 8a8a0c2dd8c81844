import ProgramBreeding.Execution.Method

/-!
# Running programs

Expressions and statements as actions on the state of a run.

## Main definitions

* `Flow` — how a statement ends.
* `Env` — what a run is given: its limits, and what a call of a function does.
* `Expr.eval`, `Stmt.exec`, `Block.exec` — what expressions and statements do.
* `FunctionDef` — a function of the program.
* `callFunction` — the call of a function with a number of nested calls left.

## Design notes

What a call does is a parameter of the evaluation.  `callFunction` ties the knot by a
recursion on the number of calls that may still be nested, so evaluation itself is a
recursion on the program.  A loop under a condition spends fuel in every round: with
`n` units it makes at most `n + 1` rounds, and `whileRounds` recurses on that number.
-/

namespace ProgramBreeding

/-- How a statement ends. -/
inductive Flow where
  | next
  | ret (value : Value)
  | brk
  | cont

/-- What a run is given. -/
structure Env where
  budget : Budget
  /-- What a call of the function with a label does. -/
  call : Label → List Value → Exec Value

/-! ### Loops -/

/-- Collects the elements of a comprehension over the given items; `found` is reversed. -/
def collect (budget : Budget) (var : String) (cond : Option (Exec Value))
    (element : Exec Value) : List Value → List Value → Exec (List Value)
  | found, [] => return found.reverse
  | found, item :: rest => do
    charge budget 1
    setVar var item
    let wanted ← match cond with
      | none => pure true
      | some cond => do truth (← cond)
    if wanted then
      let v ← element
      collect budget var cond element (v :: found) rest
    else
      collect budget var cond element found rest

/-- Gives a variable back the value it had before, or none. -/
def State.restore (name : String) (before : Option Value) (s : State) : State :=
  s.updateScope fun scope => scope.put name before

/-- Does something while a variable of the current scope is free, and gives it back its
value afterwards, also when the run stops. -/
def shielding {α : Type} (name : String) (act : Exec α) : Exec α := fun s =>
  let before := s.scope.get? name
  match act (s.updateScope fun scope => scope.erase name) with
  | .ok a s => .ok a (s.restore name before)
  | .error e s => .error e (s.restore name before)

/-- A comprehension over the items of a value.  Its variable does not leave it. -/
def runComprehension (budget : Budget) (var : String) (cond : Option (Exec Value))
    (element : Exec Value) (source : Value) : Exec Value := do
  let items := (← iterate source).toList
  let found ← shielding var (collect budget var cond element [] items)
  newList found.toArray

/-- The rounds of a loop over items. -/
def forRounds (budget : Budget) (var : String) (body : Exec Flow) : List Value → Exec Flow
  | [] => return .next
  | item :: rest => do
    charge budget 1
    setVar var item
    match ← body with
    | .brk => return .next
    | .ret value => return .ret value
    | .next | .cont => forRounds budget var body rest

/-- The rounds of a loop under a condition, at most `count` of them. -/
def whileRounds (budget : Budget) (test : Exec Value) (body : Exec Flow) : Nat → Exec Flow
  | 0 => throw (.outOfFuel budget.fuel)
  | count + 1 => do
    charge budget 1
    if ← truth (← test) then
      match ← body with
      | .brk => return .next
      | .ret value => return .ret value
      | .next | .cont => whileRounds budget test body count
    else
      return .next

/-! ### Expressions -/

/-- Calls a value. -/
def callValue (env : Env) (callee : Value) (args : List Value) : Exec Value :=
  match callee with
  | .function label => env.call label args
  | .builtin builtin => callBuiltin env.budget builtin args
  | v => raise (.notCallable v.kind)

/-- Whether a short-circuit operator is decided by its left operand. -/
def LogicOp.decidedBy : LogicOp → Bool → Bool
  | .and, left => !left
  | .or, left => left

mutual

/-- What an expression does. -/
def Expr.eval (env : Env) : Expr Label → Exec Value
  | .name _ id => do
    charge env.budget 1
    getVar id
  | .constant _ value => do
    charge env.budget 1
    return .ofLiteral value
  | .list _ items => do
    charge env.budget 1
    newList (← Expr.evalAll env items).toArray
  | .comprehension _ _ element var source none => do
    charge env.budget 1
    runComprehension env.budget var none (element.eval env) (← source.eval env)
  | .comprehension _ _ element var source (some cond) => do
    charge env.budget 1
    runComprehension env.budget var (some (cond.eval env)) (element.eval env) (← source.eval env)
  | .binary _ op left right => do
    charge env.budget 1
    let a ← left.eval env
    let b ← right.eval env
    binaryOp op a b
  | .unary _ op operand => do
    charge env.budget 1
    signOp op (← operand.eval env)
  | .logic _ op left right => do
    charge env.budget 1
    let a ← left.eval env
    if op.decidedBy (← truth a) then return a else right.eval env
  | .compare _ op left right => do
    charge env.budget 1
    let a ← left.eval env
    let b ← right.eval env
    return .bool (← ofExcept (compareValues (← get).heap op a b))
  | .call _ (.attribute _ value method) args => do
    charge env.budget 1
    let receiver ← value.eval env
    let vs ← Expr.evalAll env args
    callMethod env.budget receiver method vs
  | .call _ callee args => do
    charge env.budget 1
    let f ← callee.eval env
    let vs ← Expr.evalAll env args
    callValue env f vs
  | .attribute _ _ attr => do
    charge env.budget 1
    raise (.attributeNotCalled attr)
  | .subscript _ value index => do
    charge env.budget 1
    let container ← value.eval env
    let position ← index.eval env
    elementAt container position

/-- What expressions do, one after the other. -/
def Expr.evalAll (env : Env) : List (Expr Label) → Exec (List Value)
  | [] => return []
  | e :: rest => do
    let v ← e.eval env
    let vs ← Expr.evalAll env rest
    return v :: vs

end

/-- What a comprehension does, with a condition or without one. -/
theorem Expr.eval_comprehension (env : Env) (label : Label) (kind : ComprehensionKind)
    (element : Expr Label) (x : String) (source : Expr Label) (cond : Option (Expr Label)) :
    (Expr.comprehension label kind element x source cond).eval env = (do
      charge env.budget 1
      runComprehension env.budget x (cond.map fun c => c.eval env) (element.eval env)
        (← source.eval env)) := by
  cases cond <;> rfl

/-- Whether an expression is an attribute, whose call is a call of a method. -/
def Expr.isAttribute : Expr Label → Bool
  | .attribute .. => true
  | _ => false

/-- What the call of a function does. -/
theorem Expr.eval_call (env : Env) (label : Label) {callee : Expr Label}
    (args : List (Expr Label)) (h : callee.isAttribute = false) :
    (Expr.call label callee args).eval env = (do
      charge env.budget 1
      let f ← callee.eval env
      let vs ← Expr.evalAll env args
      callValue env f vs) := by
  cases callee <;> first | rfl | cases h

/-! ### Statements -/

/-- Replaces an item of a list. -/
def storeItem (container index value : Value) : Exec Unit :=
  match container with
  | .list ref => do
    let position ← ofExcept (indexWithin index (← itemsOf ref).size)
    updateList ref fun items => items.setIfInBounds position value
  | v => raise (.itemAssignment v.kind)

/-- Gives a value to the target of an assignment. -/
def store (env : Env) (value : Value) : Expr Label → Exec Unit
  | .name _ id => setVar id value
  | .subscript _ container index => do
    let list ← container.eval env
    let position ← index.eval env
    storeItem list position value
  | .attribute .. => raise .attributeAssignment
  | _ => raise .notAssignable

/-- Combines the value of a target with another value and stores the result.  Adding a
list to a list extends the first one in place. -/
def augment (env : Env) (target : Expr Label) (op : BinaryOp) (current operand : Value) :
    Exec Unit :=
  match op, current, operand with
  | .add, .list ref, .list other => do
    let extra ← itemsOf other
    updateList ref fun items => items ++ extra
  | op, current, operand => do
    let result ← binaryOp op current operand
    store env result target

/-- What is done unless a list is added to a list. -/
theorem augment_eq {op : BinaryOp} {current operand : Value} (env : Env) (target : Expr Label)
    (h : ∀ ref other, op = .add → current = .list ref → operand ≠ .list other) :
    augment env target op current operand = (do
      let result ← binaryOp op current operand
      store env result target) := by
  unfold augment
  split
  · exact absurd rfl (h _ _ rfl rfl)
  · rfl

mutual

/-- What a statement does. -/
def Stmt.exec (env : Env) : Stmt Label → Exec Flow
  | .functionDef label name _ _ => do
    charge env.budget 1
    setVar name (.function label)
    return .next
  | .ret _ none => do
    charge env.budget 1
    return .ret .none
  | .ret _ (some value) => do
    charge env.budget 1
    return .ret (← value.eval env)
  | .assign _ target value => do
    charge env.budget 1
    store env (← value.eval env) target
    return .next
  | .augAssign _ target op value => do
    charge env.budget 1
    let current ← target.eval env
    let operand ← value.eval env
    augment env target op current operand
    return .next
  | .forLoop _ var source body => do
    charge env.budget 1
    let items ← iterate (← source.eval env)
    forRounds env.budget var (Block.exec env body) items.toList
  | .whileLoop _ test body => do
    charge env.budget 1
    whileRounds env.budget (test.eval env) (Block.exec env body) (env.budget.fuel.toNat + 1)
  | .ifElse _ test body orelse => do
    charge env.budget 1
    if ← truth (← test.eval env) then Block.exec env body else Block.exec env orelse
  | .expr _ value => do
    charge env.budget 1
    discard (value.eval env)
    return .next
  | .pass _ => do
    charge env.budget 1
    return .next
  | .brk _ => do
    charge env.budget 1
    return .brk
  | .cont _ => do
    charge env.budget 1
    return .cont

/-- What the statements of a block do, up to the first that leaves it. -/
def Block.exec (env : Env) : List (Stmt Label) → Exec Flow
  | [] => return .next
  | s :: rest => do
    match ← s.exec env with
    | .next => Block.exec env rest
    | flow => return flow

end

/-! ### Functions -/

/-- A function of the program. -/
structure FunctionDef where
  name : String
  params : List String
  body : Block Label

mutual

/-- The functions that a statement defines, with their labels. -/
def Stmt.functions : Stmt Label → List (Label × FunctionDef)
  | .functionDef label name params body =>
    (label, ⟨name, params, body⟩) :: Block.functions body
  | .forLoop _ _ _ body => Block.functions body
  | .whileLoop _ _ body => Block.functions body
  | .ifElse _ _ body orelse => Block.functions body ++ Block.functions orelse
  | _ => []

/-- The functions that a block defines, with their labels. -/
def Block.functions : List (Stmt Label) → List (Label × FunctionDef)
  | [] => []
  | s :: rest => s.functions ++ Block.functions rest

end

/-- The value that a call yields when its body ends in a certain way. -/
def Flow.result : Flow → Value
  | .ret value => value
  | _ => .none

/-- Does something in a new scope, which is given up afterwards, also when the run
stops. -/
def inFrame {α : Type} (frame : Scope) (act : Exec α) : Exec α := fun s =>
  match act { s with frames := frame :: s.frames } with
  | .ok a s => .ok a { s with frames := s.frames.tail }
  | .error e s => .error e { s with frames := s.frames.tail }

/-- The call of a function, where `depth` more calls may be nested. -/
def callFunction (functions : List (Label × FunctionDef)) (budget : Budget) :
    Nat → Label → List Value → Exec Value
  | depth, label, args =>
    match functions.lookup label with
    | none => raise (.notCallable .function)
    | some f =>
      if f.params.length ≠ args.length then
        raise (.parameterCount f.name f.params.length args.length)
      else
        match depth with
        | 0 => throw (.recursionLimit maxCallDepth)
        | depth + 1 => do
          let env : Env := ⟨budget, callFunction functions budget depth⟩
          let flow ← inFrame (f.params.zip args) (Block.exec env f.body)
          return flow.result

end ProgramBreeding

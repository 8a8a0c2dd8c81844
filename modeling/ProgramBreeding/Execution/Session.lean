import ProgramBreeding.Execution.Eval

/-!
# Sessions

A program is loaded and its functions are called, one after the other, in one state.

## Main definitions

* `Program` — the statements of a module and the functions they define.
* `Program.load` — runs the statements of the module.
* `Program.call` — calls a function of the module.
* `Program.perform`, `Program.run` — loads a program and makes one call.
-/

namespace ProgramBreeding

/-- A program that can be run. -/
structure Program where
  body : Block Label
  functions : List (Label × FunctionDef)

namespace Program

/-- The program of a tree. -/
def ofTree (t : Tree) : Program := ⟨t.body, Block.functions t.body⟩

/-- What the statements of the module are given. -/
def env (p : Program) (budget : Budget) : Env :=
  ⟨budget, callFunction p.functions budget maxCallDepth⟩

/-- Runs the statements of the module. -/
def load (p : Program) (budget : Budget) : Exec Unit :=
  discard (Block.exec (p.env budget) p.body)

/-- Calls a function of the module with plain data. -/
def call (p : Program) (budget : Budget) (name : String) (args : List Datum) : Exec Datum := do
  match (← get).globals.get? name with
  | some (.function label) =>
    let vs ← Value.ofData args
    let result ← (p.env budget).call label vs
    ofExcept (result.toDatum (← get).heap)
  | _ => raise (.notAFunction name)

/-- Loads a program and calls one of its functions. -/
def perform (p : Program) (budget : Budget) (name : String) (args : List Datum) : Exec Datum := do
  p.load budget
  p.call budget name args

/-- What a call yields that has come to its end. -/
structure Execution where
  value : Datum
  output : String
  /-- The fuel spent, loading included. -/
  used : UInt64

/-- Loads a program and calls one of its functions. -/
def run (p : Program) (budget : Budget) (name : String) (args : List Datum) :
    Except Stop Execution :=
  match p.perform budget name args {} with
  | .ok value s => .ok ⟨value, s.output, s.used⟩
  | .error stop _ => .error stop

end Program

end ProgramBreeding

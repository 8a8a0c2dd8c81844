import ProgramBreeding.Tree.Category

/-!
# Names in programs

## Main definitions

* `Expr.isName`, `Expr.mentions` — variables that an expression reads.
* `Block.boundNames` — the names that a block gives a value.
* `Block.identifiers` — all names that occur in a block.
-/

namespace ProgramBreeding

variable {α : Type}

/-- Whether an expression is the given variable. -/
def Expr.isName (name : String) : Expr α → Bool
  | .name _ id => id == name
  | _ => false

/-- Whether a variable is read anywhere in an expression. -/
def Expr.mentions (name : String) (e : Expr α) : Bool := e.subterms.any (Expr.isName name)

/-- Whether a node is the given variable. -/
def Node.isName (name : String) : Node α → Bool
  | .expr e => e.isName name
  | .stmt _ => false

/-- The name that an assignment to a target binds. -/
def Expr.targetNames : Expr α → List String
  | .name _ id => [id]
  | _ => []

/-- The names that a node itself gives a value: the targets of assignments, the
variables of loops and comprehensions, functions and their parameters. -/
def Node.boundNames : Node α → List String
  | .stmt (.assign _ target _) => target.targetNames
  | .stmt (.augAssign _ target _ _) => target.targetNames
  | .stmt (.forLoop _ var _ _) => [var]
  | .stmt (.functionDef _ name params _) => name :: params
  | .expr (.comprehension _ _ _ var _ _) => [var]
  | _ => []

/-- The names that a node itself writes down. -/
def Node.identifiers : Node α → List String
  | .expr (.name _ id) => [id]
  | .stmt (.forLoop _ var _ _) => [var]
  | .expr (.comprehension _ _ _ var _ _) => [var]
  | .stmt (.functionDef _ name params _) => name :: params
  | .expr (.attribute _ _ attr) => [attr]
  | _ => []

/-- The names that a statement and everything below it give a value. -/
def Stmt.boundNames (s : Stmt α) : List String := s.nodes.flatMap Node.boundNames

/-- The names that a block and everything below it give a value. -/
def Block.boundNames (body : Block α) : List String := (Block.nodes body).flatMap Node.boundNames

/-- All names that occur in a block. -/
def Block.identifiers (body : Block α) : List String :=
  (Block.nodes body).flatMap Node.identifiers

end ProgramBreeding

import ProgramBreeding.Tree.Edit

/-!
# Dead branches and unreachable code

## Main definitions

* `Stmt.survivors?` — what is left of a statement under a constant condition.
* `Tree.deadBranches`, `Tree.removeDeadBranch?` — statements under constant conditions.
* `Tree.jumpsWithRest`, `Tree.removeRest?` — statements that are never reached.
-/

namespace ProgramBreeding

/-- The statements that a statement under a constant condition comes down to.  A loop
whose condition is true is not one of them. -/
def Stmt.survivors? : Stmt Label → Option (Block Label)
  | .ifElse _ (.constant _ value) body orelse => some (if value.isTruthy then body else orelse)
  | .whileLoop _ (.constant _ value) _ => if value.isTruthy then none else some []
  | _ => none

/-- Whether a statement always leaves its block. -/
def Stmt.isJump : Stmt Label → Bool
  | .ret .. | .brk _ | .cont _ => true
  | _ => false

namespace Tree

/-- The statements under constant conditions. -/
def deadBranches (t : Tree) : List Label := t.stmtsWhere fun s => s.survivors?.isSome

/-- The tree with a statement under a constant condition replaced by what it comes down
to. -/
def removeDeadBranch? (t : Tree) (label : Label) : Option Tree := do
  let focus ← Block.focus? label t.body
  let survivors ← focus.stmt.survivors?
  return t.refocus focus (focus.before ++ survivors ++ focus.after)

/-- The statements after a statement in its block. -/
def siblingsAfter (t : Tree) (label : Label) : Block Label :=
  ((Block.focus? label t.body).map Focus.after).getD []

/-- The jumps that have statements after them. -/
def jumpsWithRest (t : Tree) : List Label :=
  t.stmtsWhere fun s => s.isJump && !(t.siblingsAfter s.tag).isEmpty

/-- The tree without the statements after a statement, if there are any. -/
def removeRest? (t : Tree) (label : Label) : Option Tree := do
  let focus ← Block.focus? label t.body
  if focus.after.isEmpty then none
  else return t.refocus focus (focus.before ++ [focus.stmt])

end Tree

end ProgramBreeding

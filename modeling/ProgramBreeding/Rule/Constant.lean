import ProgramBreeding.Number.Checked
import ProgramBreeding.Tree.Edit
import ProgramBreeding.Tree.Names

/-!
# Constant folding and augmented assignment

## Main definitions

* `Expr.intValue?` — the value of an integer constant, signed or not.
* `Expr.folded?` — the value of an operation on integer constants.
* `Tree.foldable`, `Tree.fold?` — operations replaced by their values.
* `Tree.selfAssignments`, `Tree.augment?` — assignments of a variable to itself and a
  constant.
-/

namespace ProgramBreeding

variable {α : Type}

/-- The value of an integer constant, which may have a minus sign. -/
def Expr.intValue? : Expr α → Option Int64
  | .constant _ (.int n) => some n
  | .unary _ .neg (.constant _ (.int n)) => Checked.neg n
  | _ => none

/-- The value of an operation on integers, if it is one that folding may replace: the
least integer cannot be written down. -/
def BinaryOp.fold? (op : BinaryOp) (a b : Int64) : Option Int64 :=
  let value := match op with
    | .add => Checked.add a b
    | .sub => Checked.sub a b
    | .mul => Checked.mul a b
    | .floorDiv => Checked.floorDiv a b
    | .mod => Checked.floorMod a b
    | .div | .pow => none
  value.filter fun n => n != Int64.minValue

/-- The value of an operation on integer constants. -/
def Expr.folded? : Expr α → Option Int64
  | .binary _ op left right => do op.fold? (← left.intValue?) (← right.intValue?)
  | _ => none

/-- The target, the operator and the constant of an assignment of a variable to itself
and a numeric constant.  Products are left alone: a list is multiplied in place by an
augmented assignment, and other names for it would see that. -/
def Stmt.selfAssignment? : Stmt α → Option (Expr α × BinaryOp × Expr α)
  | .assign _ (.name l id) (.binary _ op left right@(.constant _ value)) =>
    let numeric := match value with
      | .int _ | .float _ => true
      | _ => false
    if numeric && op != .pow && op != .mul && left.isName id then some (.name l id, op, right)
    else none
  | _ => none

namespace Tree

/-- The operations on integer constants. -/
def foldable (t : Tree) : List Label := t.exprsWhere fun e => e.folded?.isSome

/-- The expression with a label. -/
def expr? (t : Tree) (label : Label) : Option (Expr Label) :=
  t.nodes.findSome? fun
    | .expr e => if e.tag = label then some e else none
    | .stmt _ => none

/-- The tree with an operation on integer constants replaced by its value. -/
def fold? (t : Tree) (label : Label) : Option Tree := do
  let value ← (← t.expr? label).folded?
  return { t with
    next := t.next + 1
    body := Block.substituteExpr label (.constant t.next (.int value)) t.body }

/-- The assignments of a variable to itself and a constant. -/
def selfAssignments (t : Tree) : List Label := t.stmtsWhere fun s => s.selfAssignment?.isSome

/-- The tree with an assignment of a variable to itself and a constant shortened. -/
def augment? (t : Tree) (label : Label) : Option Tree := do
  let focus ← Block.focus? label t.body
  let (target, op, value) ← focus.stmt.selfAssignment?
  let short := .augAssign t.next target op value
  return { t with next := t.next + 1 }.refocus focus (focus.before ++ short :: focus.after)

end Tree

end ProgramBreeding

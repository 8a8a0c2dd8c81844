import ProgramBreeding.Tree.Edit
import ProgramBreeding.Tree.Names

/-!
# Lengths in the conditions of loops

The length of a list that a loop does not change is taken once, before the loop.

## Main definitions

* `Expr.alwaysEvaluated` — the parts of an expression that are evaluated every time.
* `Tree.fixedLength?` — the variable whose length a loop takes again and again.
* `freshName` — a name that is not taken.
* `Tree.lengthLoops`, `Tree.hoistLength?` — lengths moved out of conditions.
-/

namespace ProgramBreeding

variable {α : Type}

/-- The methods that change the length of a list. -/
def resizingMethods : List String := ["append", "extend", "pop", "insert", "remove", "clear"]

/-- The functions that leave their arguments alone. -/
def harmlessFunctions : List String :=
  ["len", "sum", "range", "min", "max", "abs", "list", "sorted", "any", "all", "print", "int",
    "float", "str", "bool"]

/-- Whether an expression is a call that may change the length of a list. -/
def Expr.mayResize : Expr α → Bool
  | .call _ (.name _ callee) _ => !harmlessFunctions.contains callee
  | .call _ (.attribute _ _ attr) _ => resizingMethods.contains attr
  | .call .. => true
  | _ => false

/-- Whether a node is a call that may change the length of a list. -/
def Node.mayResize : Node α → Bool
  | .expr e => e.mayResize
  | .stmt _ => false

mutual

/-- The parts of an expression that are evaluated whenever it is: neither the right
side of a short-circuit operation nor what a comprehension does for each element. -/
def Expr.alwaysEvaluated : Expr α → List (Expr α)
  | e@(.name ..) => [e]
  | e@(.constant ..) => [e]
  | e@(.list _ items) => e :: Expr.alwaysEvaluatedAll items
  | e@(.comprehension _ _ _ _ source _) => e :: source.alwaysEvaluated
  | e@(.binary _ _ left right) => e :: (left.alwaysEvaluated ++ right.alwaysEvaluated)
  | e@(.unary _ _ operand) => e :: operand.alwaysEvaluated
  | e@(.logic _ _ left _) => e :: left.alwaysEvaluated
  | e@(.compare _ _ left right) => e :: (left.alwaysEvaluated ++ right.alwaysEvaluated)
  | e@(.call _ callee args) => e :: (callee.alwaysEvaluated ++ Expr.alwaysEvaluatedAll args)
  | e@(.attribute _ value _) => e :: value.alwaysEvaluated
  | e@(.subscript _ value index) => e :: (value.alwaysEvaluated ++ index.alwaysEvaluated)

/-- The parts of some expressions that are evaluated whenever they are. -/
def Expr.alwaysEvaluatedAll : List (Expr α) → List (Expr α)
  | [] => []
  | e :: rest => e.alwaysEvaluated ++ Expr.alwaysEvaluatedAll rest

end

/-- The variable whose length a call takes. -/
def Expr.lengthOf? : Expr α → Option String
  | .call _ (.name _ callee) [.name _ id] => if callee == "len" then some id else none
  | _ => none

/-- Whether a statement neither binds a variable nor may change the length of a list. -/
def Stmt.keepsLength (name : String) (s : Stmt α) : Bool :=
  !s.boundNames.contains name && !s.nodes.any Node.mayResize

/-- The first of `base`, `base2`, `base3` and so on that is not taken.  There are more
of them than names that are taken. -/
def freshName (taken : List String) (base : String) : String :=
  let numbered := (List.range taken.length).map fun k => base ++ toString (k + 2)
  ((base :: numbered).find? fun name => !taken.contains name).getD base

namespace Tree

/-- The variable whose length the condition of a loop takes although the loop cannot
change it, with the calls that take it. -/
def fixedLength? (t : Tree) : Stmt Label → Option (String × List (Expr Label))
  | .whileLoop _ test body => do
    let name ← test.alwaysEvaluated.findSome? Expr.lengthOf?
    if !(Block.boundNames t.body).contains "len" && body.all (Stmt.keepsLength name) then
      return (name, test.subterms.filter fun e => e.lengthOf? == some name)
    else none
  | _ => none

/-- The loops that take a fixed length in their conditions. -/
def lengthLoops (t : Tree) : List Label := t.stmtsWhere fun s => (t.fixedLength? s).isSome

/-- The tree with a fixed length taken before a loop. -/
def hoistLength? (t : Tree) (label : Label) : Option Tree := do
  let focus ← Block.focus? label t.body
  let (name, calls) ← t.fixedLength? focus.stmt
  match focus.stmt, calls with
  | .whileLoop l test body, first :: _ =>
    let fresh := freshName (Block.identifiers t.body) ("n_" ++ name)
    let test := calls.zipIdx.foldl
      (fun test (call, i) => Expr.substitute call.tag (.name (t.next + i) fresh) test) test
    let next := t.next + calls.length
    let length : Stmt Label := .assign (next + 1) (.name next fresh) first
    let loop : Stmt Label := .whileLoop l test body
    return { t with next := next + 2 }.refocus focus
      (focus.before ++ length :: loop :: focus.after)
  | _, _ => none

end Tree

end ProgramBreeding

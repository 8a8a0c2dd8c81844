import ProgramBreeding.Rule.Constant

/-!
# Loops that add up or append

A loop over a sequence that does nothing but add to a number, or append to a list,
which was set up right before it.

## Main definitions

* `SimpleLoop`, `Tree.simpleLoop?` — a loop of one statement after an assignment.
* `Tree.accumulations`, `Tree.accumulationToSum?` — loops that add up.
* `Tree.appendLoops`, `Tree.appendToComprehension?` — loops that append.

## Design notes

A loop leaves its variable bound and a comprehension does not.  So the variable must
not be read outside the loop, anywhere in the function or module around it.  Nor may
what the loop runs over, its condition or the element see the unfinished result.
-/

namespace ProgramBreeding

variable {α : Type}

/-- A loop with a body of one statement, which may stand under a condition, right after
an assignment to a variable. -/
structure SimpleLoop where
  focus : Focus
  /-- The statements before the assignment. -/
  before : Block Label
  target : Expr Label
  /-- The variable that is assigned to. -/
  name : String
  init : Expr Label
  var : String
  source : Expr Label
  cond : Option (Expr Label)
  inner : Stmt Label

/-- The statement of a loop's body, with the condition it stands under. -/
def Stmt.guarded? : Stmt α → Option (Stmt α × Option (Expr α))
  | .ifElse _ test [inner] [] => some (inner, some test)
  | .ifElse _ _ _ [] => none
  | s => some (s, none)

/-- The body of a function definition. -/
def Node.functionBody? : Node α → Option (Block α)
  | .stmt (.functionDef _ _ _ body) => some body
  | _ => none

namespace Tree

/-- The body of the innermost function around a node, or the module. -/
def scopeOf (t : Tree) (label : Label) : Block Label :=
  let bodies := (t.nodes.filterMap Node.functionBody?).filter fun body =>
    (Block.nodes body).any fun node => node.tag = label
  bodies.getLast?.getD t.body

/-- Whether a variable is read in the function or module around a statement, outside
the statement itself. -/
def isReadAround (t : Tree) (s : Stmt Label) (name : String) : Bool :=
  let own := s.nodes.map Node.tag
  (Block.nodes (t.scopeOf s.tag)).any fun node => node.isName name && !own.contains node.tag

/-- The simple loop with a label. -/
def simpleLoop? (t : Tree) (label : Label) : Option SimpleLoop := do
  let focus ← Block.focus? label t.body
  match focus.stmt, focus.before.getLast? with
  | .forLoop _ var source [s], some (.assign _ (.name l name) init) =>
    let (inner, cond) ← s.guarded?
    if name == var || source.mentions name || cond.any (Expr.mentions name) ||
        t.isReadAround focus.stmt var then
      none
    else
      return {
        focus, before := focus.before.dropLast, target := .name l name, name, init, var, source,
        cond, inner }
  | _, _ => none

/-- The tree with a simple loop and the assignment before it replaced by an assignment
of `value`; labels from `next` on are free. -/
def replaceLoop (t : Tree) (loop : SimpleLoop) (value : Expr Label) (next : Label) : Tree :=
  let statement : Stmt Label := .assign next loop.target value
  { t with next := next + 1 }.refocus loop.focus (loop.before ++ statement :: loop.focus.after)

/-! ### Loops that add up -/

/-- The loop with a label as one that adds up: with the integer it starts from and the
expression that is added. -/
def accumulation? (t : Tree) (label : Label) : Option (SimpleLoop × Int64 × Expr Label) := do
  let loop ← t.simpleLoop? label
  let start ← loop.init.intValue?
  match loop.inner with
  | .augAssign _ target .add value =>
    if target.isName loop.name && !value.mentions loop.name &&
        !(Block.boundNames t.body).contains "sum" then
      return (loop, start, value)
    else none
  | _ => none

/-- The loops that add up. -/
def accumulations (t : Tree) : List Label :=
  (t.ofCategory .forLoop).filter fun label => (t.accumulation? label).isSome

/-- The tree with a loop that adds up replaced by a sum. -/
def accumulationToSum? (t : Tree) (label : Label) : Option Tree := do
  let (loop, start, element) ← t.accumulation? label
  let (argument, next) :=
    if loop.cond.isNone && element.isName loop.var then (loop.source, t.next)
    else
      (.comprehension t.next .generator element loop.var loop.source loop.cond, t.next + 1)
  let total := .call (next + 1) (.name next "sum") [argument]
  if start = 0 then return t.replaceLoop loop total (next + 2)
  else
    let value := .binary (next + 3) .add (.constant (next + 2) (.int start)) total
    return t.replaceLoop loop value (next + 4)

/-! ### Loops that append -/

/-- The loop with a label as one that appends to an empty list: with the expression that
is appended. -/
def appendLoop? (t : Tree) (label : Label) : Option (SimpleLoop × Expr Label) := do
  let loop ← t.simpleLoop? label
  match loop.init, loop.inner with
  | .list _ [], .expr _ (.call _ (.attribute _ receiver attr) [element]) =>
    if attr == "append" && receiver.isName loop.name && !element.mentions loop.name then
      return (loop, element)
    else none
  | _, _ => none

/-- The loops that append. -/
def appendLoops (t : Tree) : List Label :=
  (t.ofCategory .forLoop).filter fun label => (t.appendLoop? label).isSome

/-- The tree with a loop that appends replaced by a comprehension. -/
def appendToComprehension? (t : Tree) (label : Label) : Option Tree := do
  let (loop, element) ← t.appendLoop? label
  let value := .comprehension t.next .list element loop.var loop.source loop.cond
  return t.replaceLoop loop value (t.next + 1)

end Tree

end ProgramBreeding

import ProgramBreeding.Tree.Category

/-!
# Trees with labelled nodes

A program that is edited keeps a label on every node.  A label is never given away
twice in the life of one tree, so a label that is still there denotes the node it was
given to.

## Main definitions

* `Stmt.number`, `Block.number` — the same program with labels counted from a number.
* `Tree` — a labelled program, the next free label and the lineage it belongs to.
* `Tree.ofBlock` — a parsed program as the first tree of a lineage.
* `Handle` — a label together with a lineage.

## Design notes

Nodes are numbered after everything below them, in the order of the text; the module
itself comes last.  Trees that are derived from one another share their lineage, so a
handle taken from one of them can be used on the other.  Two trees derived from one
tree by different edits go on counting from the same number: a label that one of them
gave to a new node may be the label of another new node in the other.
-/

namespace ProgramBreeding

variable {α : Type}

/-- The number of a node in its tree. -/
abbrev Label := Nat

mutual

/-- An expression with labels counted from `next`, and the next free label. -/
def Expr.number : Expr α → Label → Expr Label × Label
  | .name _ id, next => (.name next id, next + 1)
  | .constant _ value, next => (.constant next value, next + 1)
  | .list _ items, next =>
    let (items, next) := Expr.numberAll items next
    (.list next items, next + 1)
  | .comprehension _ kind element var source cond, next =>
    let (element, next) := element.number next
    let (source, next) := source.number next
    let (cond, next) := Expr.numberCond cond next
    (.comprehension next kind element var source cond, next + 1)
  | .binary _ op left right, next =>
    let (left, next) := left.number next
    let (right, next) := right.number next
    (.binary next op left right, next + 1)
  | .unary _ op operand, next =>
    let (operand, next) := operand.number next
    (.unary next op operand, next + 1)
  | .logic _ op left right, next =>
    let (left, next) := left.number next
    let (right, next) := right.number next
    (.logic next op left right, next + 1)
  | .compare _ op left right, next =>
    let (left, next) := left.number next
    let (right, next) := right.number next
    (.compare next op left right, next + 1)
  | .call _ callee args, next =>
    let (callee, next) := callee.number next
    let (args, next) := Expr.numberAll args next
    (.call next callee args, next + 1)
  | .attribute _ value attr, next =>
    let (value, next) := value.number next
    (.attribute next value attr, next + 1)
  | .subscript _ value index, next =>
    let (value, next) := value.number next
    let (index, next) := index.number next
    (.subscript next value index, next + 1)

/-- Expressions with labels counted from `next`, and the next free label. -/
def Expr.numberAll : List (Expr α) → Label → List (Expr Label) × Label
  | [], next => ([], next)
  | e :: rest, next =>
    let (e, next) := e.number next
    let (rest, next) := Expr.numberAll rest next
    (e :: rest, next)

/-- A condition with labels counted from `next`, and the next free label. -/
def Expr.numberCond : Option (Expr α) → Label → Option (Expr Label) × Label
  | none, next => (none, next)
  | some e, next =>
    let (e, next) := e.number next
    (some e, next)

end

mutual

/-- A statement with labels counted from `next`, and the next free label. -/
def Stmt.number : Stmt α → Label → Stmt Label × Label
  | .functionDef _ name params body, next =>
    let (body, next) := Block.number body next
    (.functionDef next name params body, next + 1)
  | .ret _ none, next => (.ret next none, next + 1)
  | .ret _ (some value), next =>
    let (value, next) := value.number next
    (.ret next (some value), next + 1)
  | .assign _ target value, next =>
    let (target, next) := target.number next
    let (value, next) := value.number next
    (.assign next target value, next + 1)
  | .augAssign _ target op value, next =>
    let (target, next) := target.number next
    let (value, next) := value.number next
    (.augAssign next target op value, next + 1)
  | .forLoop _ var source body, next =>
    let (source, next) := source.number next
    let (body, next) := Block.number body next
    (.forLoop next var source body, next + 1)
  | .whileLoop _ test body, next =>
    let (test, next) := test.number next
    let (body, next) := Block.number body next
    (.whileLoop next test body, next + 1)
  | .ifElse _ test body orelse, next =>
    let (test, next) := test.number next
    let (body, next) := Block.number body next
    let (orelse, next) := Block.number orelse next
    (.ifElse next test body orelse, next + 1)
  | .expr _ value, next =>
    let (value, next) := value.number next
    (.expr next value, next + 1)
  | .pass _, next => (.pass next, next + 1)
  | .brk _, next => (.brk next, next + 1)
  | .cont _, next => (.cont next, next + 1)

/-- A block with labels counted from `next`, and the next free label. -/
def Block.number : List (Stmt α) → Label → List (Stmt Label) × Label
  | [], next => ([], next)
  | s :: rest, next =>
    let (s, next) := s.number next
    let (rest, next) := Block.number rest next
    (s :: rest, next)

end

/-- A labelled program. -/
structure Tree where
  /-- What the tree shares with all trees derived from it. -/
  lineage : Nat
  /-- The label of the module. -/
  root : Label
  /-- The next free label. -/
  next : Label
  /-- The statements of the module. -/
  body : Block Label

/-- A node of some tree. -/
structure Handle where
  lineage : Nat
  label : Label
  deriving DecidableEq, Repr

namespace Tree

/-- A program as the first tree of a lineage. -/
def ofBlock (lineage : Nat) (body : Block α) : Tree :=
  let (body, next) := Block.number body 0
  ⟨lineage, next, next + 1, body⟩

/-- All nodes but the module, every node before those below it. -/
def nodes (t : Tree) : List (Node Label) := Block.nodes t.body

/-- The number of nodes, the module included. -/
def size (t : Tree) : Nat := t.nodes.length + 1

/-- The handle of a label. -/
def handle (t : Tree) (label : Label) : Handle := ⟨t.lineage, label⟩

/-- The nodes of a category, as labels in the order of the text. -/
def ofCategory (t : Tree) (category : Category) : List Label :=
  if category = .module then [t.root]
  else (t.nodes.filter fun node => node.category = category).map Node.tag

/-- The expressions with a property, as labels in the order of the text. -/
def exprsWhere (t : Tree) (p : Expr Label → Bool) : List Label :=
  t.nodes.filterMap fun
    | .expr e => if p e then some e.tag else none
    | .stmt _ => none

/-- The statements with a property, as labels in the order of the text. -/
def stmtsWhere (t : Tree) (p : Stmt Label → Bool) : List Label :=
  t.nodes.filterMap fun
    | .stmt s => if p s then some s.tag else none
    | .expr _ => none

/-- How often each category occurs that occurs at all, in the order of categories. -/
def census (t : Tree) : List (Category × Nat) :=
  let found := Category.module :: t.nodes.map Node.category
  (Category.all.map fun category => (category, found.count category)).filter fun entry =>
    entry.2 ≠ 0

/-- The categories that occur, in their order. -/
def categories (t : Tree) : List Category := t.census.map Prod.fst

/-- The functions of the module with their numbers of parameters, in the order of the
text. -/
def signatures (t : Tree) : List (String × Nat) :=
  t.body.filterMap fun
    | .functionDef _ name params _ => some (name, params.length)
    | _ => none

/-- The names of the functions of the module, in the order of the text. -/
def functionNames (t : Tree) : List String := t.signatures.map Prod.fst

end Tree

end ProgramBreeding

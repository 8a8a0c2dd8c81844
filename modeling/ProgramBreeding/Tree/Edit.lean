import ProgramBreeding.Tree.Labelled

/-!
# Editing trees

A node is replaced by a copy of another one, a block by another block.  Edits leave
all other labels as they are and give new nodes the next free labels.

## Main definitions

* `Tree.find?` — the node with a label.
* `Block.substituteExpr`, `Block.substituteStmt` — one node replaced.
* `Focus`, `Block.focus?` — a statement with the statements around it.
* `Tree.refocus` — the block around a statement replaced.
* `Tree.replace` — a node replaced by a copy of a node of a donor, or why not.
* `TreeError` — why an edit fails, with `TreeError.message`.
-/

namespace ProgramBreeding

/-- Why an edit fails. -/
inductive TreeError where
  /-- The tree has no node with this handle. -/
  | nodeNotFound (node : Handle)
  /-- The replacement does not fit in the place of the target. -/
  | incompatible (target replacement : Slot)
  /-- Only names, elements and attributes can be assigned to. -/
  | notAssignable
  /-- The module has no place that it stands in. -/
  | rootReplacement
  /-- A rule was asked to edit a node that it does not match. -/
  | unmatched (node : Handle)
  deriving DecidableEq, Repr

/-- The wording of an error.  A handle means nothing outside its tree, so it is not
spelled out. -/
def TreeError.message : TreeError → String
  | .nodeNotFound _ => "node # does not belong to this tree"
  | .incompatible target replacement =>
    "cannot replace a " ++ target.name ++ " node with a " ++ replacement.name ++ " node"
  | .notAssignable => "replacement for an assignment target must be assignable"
  | .rootReplacement => "the module root cannot be replaced"
  | .unmatched _ => "node # does not match the rewrite pattern"

/-! ### One node replaced -/

mutual

/-- An expression with the node of a label replaced. -/
def Expr.substitute (label : Label) (new : Expr Label) : Expr Label → Expr Label
  | .name l id => if l = label then new else .name l id
  | .constant l value => if l = label then new else .constant l value
  | .list l items =>
    if l = label then new else .list l (Expr.substituteAll label new items)
  | .comprehension l kind element var source cond =>
    if l = label then new
    else
      .comprehension l kind (Expr.substitute label new element) var
        (Expr.substitute label new source) (Expr.substituteCond label new cond)
  | .binary l op left right =>
    if l = label then new
    else .binary l op (Expr.substitute label new left) (Expr.substitute label new right)
  | .unary l op operand =>
    if l = label then new else .unary l op (Expr.substitute label new operand)
  | .logic l op left right =>
    if l = label then new
    else .logic l op (Expr.substitute label new left) (Expr.substitute label new right)
  | .compare l op left right =>
    if l = label then new
    else .compare l op (Expr.substitute label new left) (Expr.substitute label new right)
  | .call l callee args =>
    if l = label then new
    else .call l (Expr.substitute label new callee) (Expr.substituteAll label new args)
  | .attribute l value attr =>
    if l = label then new else .attribute l (Expr.substitute label new value) attr
  | .subscript l value index =>
    if l = label then new
    else .subscript l (Expr.substitute label new value) (Expr.substitute label new index)

/-- Expressions with the node of a label replaced. -/
def Expr.substituteAll (label : Label) (new : Expr Label) : List (Expr Label) → List (Expr Label)
  | [] => []
  | e :: rest => Expr.substitute label new e :: Expr.substituteAll label new rest

/-- A condition with the node of a label replaced. -/
def Expr.substituteCond (label : Label) (new : Expr Label) :
    Option (Expr Label) → Option (Expr Label)
  | none => none
  | some e => some (Expr.substitute label new e)

end

mutual

/-- A statement with a function applied to all its expressions. -/
def Stmt.mapExprs (f : Expr Label → Expr Label) : Stmt Label → Stmt Label
  | .functionDef l name params body => .functionDef l name params (Block.mapExprs f body)
  | .ret l value => .ret l (value.map f)
  | .assign l target value => .assign l (f target) (f value)
  | .augAssign l target op value => .augAssign l (f target) op (f value)
  | .forLoop l var source body => .forLoop l var (f source) (Block.mapExprs f body)
  | .whileLoop l test body => .whileLoop l (f test) (Block.mapExprs f body)
  | .ifElse l test body orelse =>
    .ifElse l (f test) (Block.mapExprs f body) (Block.mapExprs f orelse)
  | .expr l value => .expr l (f value)
  | .pass l => .pass l
  | .brk l => .brk l
  | .cont l => .cont l

/-- A block with a function applied to all expressions of its statements. -/
def Block.mapExprs (f : Expr Label → Expr Label) : List (Stmt Label) → List (Stmt Label)
  | [] => []
  | s :: rest => s.mapExprs f :: Block.mapExprs f rest

end

/-- A block with the expression of a label replaced. -/
def Block.substituteExpr (label : Label) (new : Expr Label) (body : Block Label) : Block Label :=
  Block.mapExprs (Expr.substitute label new) body

mutual

/-- A statement with the statement of a label replaced. -/
def Stmt.substituteStmt (label : Label) (new : Stmt Label) : Stmt Label → Stmt Label
  | .functionDef l name params body =>
    if l = label then new
    else .functionDef l name params (Block.substituteStmt label new body)
  | .forLoop l var source body =>
    if l = label then new else .forLoop l var source (Block.substituteStmt label new body)
  | .whileLoop l test body =>
    if l = label then new else .whileLoop l test (Block.substituteStmt label new body)
  | .ifElse l test body orelse =>
    if l = label then new
    else
      .ifElse l test (Block.substituteStmt label new body) (Block.substituteStmt label new orelse)
  | s => if s.tag = label then new else s

/-- A block with the statement of a label replaced. -/
def Block.substituteStmt (label : Label) (new : Stmt Label) : List (Stmt Label) → List (Stmt Label)
  | [] => []
  | s :: rest => Stmt.substituteStmt label new s :: Block.substituteStmt label new rest

end

/-! ### The block around a statement -/

/-- A statement with the statements around it. -/
structure Focus where
  before : Block Label
  stmt : Stmt Label
  after : Block Label
  /-- Whether the block around the statement must not be empty. -/
  required : Bool

/-- A block cut at the statement of a label; `before` is what precedes it. -/
def Block.cut? (label : Label) (before : Block Label) :
    Block Label → Option (Block Label × Stmt Label × Block Label)
  | [] => none
  | s :: rest =>
    if s.tag = label then some (before, s, rest) else Block.cut? label (before ++ [s]) rest

mutual

/-- The statement of a label in the blocks of a statement. -/
def Stmt.focus? (label : Label) : Stmt Label → Option Focus
  | .functionDef _ _ _ body => Block.focusIn? label true body body
  | .forLoop _ _ _ body => Block.focusIn? label true body body
  | .whileLoop _ _ body => Block.focusIn? label true body body
  | .ifElse _ _ body orelse =>
    (Block.focusIn? label true body body).or (Block.focusIn? label false orelse orelse)
  | _ => none

/-- The statement of a label in `block`, or below the statements in the given rest of
it. -/
def Block.focusIn? (label : Label) (required : Bool) (block : Block Label) :
    List (Stmt Label) → Option Focus
  | [] => (Block.cut? label [] block).map fun (before, s, after) => ⟨before, s, after, required⟩
  | s :: rest => (s.focus? label).or (Block.focusIn? label required block rest)

end

/-- The statement of a label with the statements around it. -/
def Block.focus? (label : Label) (body : Block Label) : Option Focus :=
  Block.focusIn? label false body body

/-- Whether a block holds the statement of a label itself. -/
def Block.holds (label : Label) (body : Block Label) : Bool :=
  body.any fun s => s.tag = label

mutual

/-- A statement with the block around the statement of a label replaced. -/
def Stmt.replaceAround (label : Label) (new : Block Label) : Stmt Label → Stmt Label
  | .functionDef l name params body =>
    .functionDef l name params
      (if Block.holds label body then new else Block.replaceBelow label new body)
  | .forLoop l var source body =>
    .forLoop l var source
      (if Block.holds label body then new else Block.replaceBelow label new body)
  | .whileLoop l test body =>
    .whileLoop l test
      (if Block.holds label body then new else Block.replaceBelow label new body)
  | .ifElse l test body orelse =>
    .ifElse l test
      (if Block.holds label body then new else Block.replaceBelow label new body)
      (if Block.holds label orelse then new else Block.replaceBelow label new orelse)
  | s => s

/-- Statements with the block around a statement below them replaced. -/
def Block.replaceBelow (label : Label) (new : Block Label) :
    List (Stmt Label) → List (Stmt Label)
  | [] => []
  | s :: rest => s.replaceAround label new :: Block.replaceBelow label new rest

end

/-- A block with the block around the statement of a label replaced. -/
def Block.replaceAround (label : Label) (new body : Block Label) : Block Label :=
  if Block.holds label body then new else Block.replaceBelow label new body

namespace Tree

/-- A tree with the block around a statement replaced.  A block that must not be empty
gets an empty statement instead. -/
def refocus (t : Tree) (focus : Focus) (block : Block Label) : Tree :=
  if block.isEmpty && focus.required then
    { t with
      next := t.next + 1
      body := Block.replaceAround focus.stmt.tag [.pass t.next] t.body }
  else { t with body := Block.replaceAround focus.stmt.tag block t.body }

/-- A node of a tree; the module is a node, too. -/
inductive Found where
  | module
  | node (node : Node Label)

/-- The category of a node. -/
def Found.category : Found → Category
  | .module => .module
  | .node n => n.category

/-- The node with a label. -/
def find? (t : Tree) (label : Label) : Option Found :=
  if label = t.root then some .module
  else (t.nodes.find? fun node => node.tag = label).map .node

/-- The node that a handle denotes. -/
def locate (t : Tree) (handle : Handle) : Except TreeError Found :=
  match (if handle.lineage = t.lineage then t.find? handle.label else none) with
  | some found => .ok found
  | none => .error (.nodeNotFound handle)

/-- The category of the node that a handle denotes. -/
def category (t : Tree) (handle : Handle) : Except TreeError Category :=
  (t.locate handle).map Found.category

/-- Whether the node of a label is what an assignment is made to. -/
def isTarget (t : Tree) (label : Label) : Bool :=
  t.nodes.any fun
    | .stmt (.assign _ target _) => target.tag = label
    | .stmt (.augAssign _ target _ _) => target.tag = label
    | _ => false

/-- A tree with the node of a handle replaced by a copy of a node of `donor`, which may
be the tree itself. -/
def replace (t : Tree) (target : Handle) (donor : Tree) (replacement : Handle) :
    Except TreeError Tree := do
  let place ← t.locate target
  let found ← donor.locate replacement
  match place, found with
  | .module, _ => throw .rootReplacement
  | .node (.stmt _), .node (.stmt new) =>
    let (new, next) := new.number t.next
    return { t with next := next, body := Block.substituteStmt target.label new t.body }
  | .node (.expr _), .node (.expr new) =>
    if t.isTarget target.label && !new.isAssignable then throw .notAssignable
    let (new, next) := new.number t.next
    return { t with next := next, body := Block.substituteExpr target.label new t.body }
  | place, found => throw (.incompatible place.category.slot found.category.slot)

end Tree

end ProgramBreeding

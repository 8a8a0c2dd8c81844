import ProgramBreeding.Tree.Basic

/-!
# Categories of nodes

Nodes of one category may change places between programs.

## Main definitions

* `Node` — a node together with everything below it.
* `Category` — the kinds of nodes, and `Category.slot` the kind of place each fills.
* `Node.category` — the category of a node.
* `Block.nodes` — all nodes of a block, every node before those below it.
-/

namespace ProgramBreeding

variable {α : Type}

/-- What a place in a program can hold. -/
inductive Slot where
  | module
  | statement
  | expression
  deriving DecidableEq, Repr

/-- The name of a kind of place. -/
def Slot.name : Slot → String
  | .module => "Module"
  | .statement => "Statement"
  | .expression => "Expression"

/-- Categories of nodes. -/
inductive Category where
  | module
  | functionDef
  | ret
  | assign
  | augAssign
  | forLoop
  | whileLoop
  | ifElse
  | exprStmt
  | pass
  | brk
  | cont
  | name
  | constant
  | list
  | comprehension
  | binaryOp
  | unaryOp
  | boolOp
  | compare
  | call
  | attribute
  | subscript
  deriving DecidableEq, Repr

/-- All categories, in their order. -/
def Category.all : List Category :=
  [.module, .functionDef, .ret, .assign, .augAssign, .forLoop, .whileLoop, .ifElse, .exprStmt,
    .pass, .brk, .cont, .name, .constant, .list, .comprehension, .binaryOp, .unaryOp, .boolOp,
    .compare, .call, .attribute, .subscript]

/-- The name of a category. -/
def Category.id : Category → String
  | .module => "module"
  | .functionDef => "function_def"
  | .ret => "return"
  | .assign => "assign"
  | .augAssign => "aug_assign"
  | .forLoop => "for"
  | .whileLoop => "while"
  | .ifElse => "if"
  | .exprStmt => "expr_stmt"
  | .pass => "pass"
  | .brk => "break"
  | .cont => "continue"
  | .name => "name"
  | .constant => "constant"
  | .list => "list"
  | .comprehension => "comprehension"
  | .binaryOp => "binary_op"
  | .unaryOp => "unary_op"
  | .boolOp => "bool_op"
  | .compare => "compare"
  | .call => "call"
  | .attribute => "attribute"
  | .subscript => "subscript"

/-- The category with a name. -/
def Category.ofId? (id : String) : Option Category :=
  Category.all.find? fun category => category.id == id

/-- The kind of place that a category fills. -/
def Category.slot : Category → Slot
  | .module => .module
  | .functionDef | .ret | .assign | .augAssign | .forLoop | .whileLoop | .ifElse | .exprStmt
  | .pass | .brk | .cont => .statement
  | _ => .expression

/-- The category of an expression. -/
def Expr.category : Expr α → Category
  | .name .. => .name
  | .constant .. => .constant
  | .list .. => .list
  | .comprehension .. => .comprehension
  | .binary .. => .binaryOp
  | .unary .. => .unaryOp
  | .logic .. => .boolOp
  | .compare .. => .compare
  | .call .. => .call
  | .attribute .. => .attribute
  | .subscript .. => .subscript

/-- The category of a statement. -/
def Stmt.category : Stmt α → Category
  | .functionDef .. => .functionDef
  | .ret .. => .ret
  | .assign .. => .assign
  | .augAssign .. => .augAssign
  | .forLoop .. => .forLoop
  | .whileLoop .. => .whileLoop
  | .ifElse .. => .ifElse
  | .expr .. => .exprStmt
  | .pass _ => .pass
  | .brk _ => .brk
  | .cont _ => .cont

/-- A node of a block together with everything below it. -/
inductive Node (α : Type) where
  | stmt (s : Stmt α)
  | expr (e : Expr α)

/-- The tag of a node. -/
def Node.tag : Node α → α
  | .stmt s => s.tag
  | .expr e => e.tag

/-- The category of a node. -/
def Node.category : Node α → Category
  | .stmt s => s.category
  | .expr e => e.category

/-! ### All nodes -/

mutual

/-- An expression and all expressions below it, each before those below it. -/
def Expr.subterms : Expr α → List (Expr α)
  | e@(.name ..) => [e]
  | e@(.constant ..) => [e]
  | e@(.list _ items) => e :: Expr.subtermsAll items
  | e@(.comprehension _ _ element _ source cond) =>
    e :: (element.subterms ++ source.subterms ++ Expr.subtermsCond cond)
  | e@(.binary _ _ left right) => e :: (left.subterms ++ right.subterms)
  | e@(.unary _ _ operand) => e :: operand.subterms
  | e@(.logic _ _ left right) => e :: (left.subterms ++ right.subterms)
  | e@(.compare _ _ left right) => e :: (left.subterms ++ right.subterms)
  | e@(.call _ callee args) => e :: (callee.subterms ++ Expr.subtermsAll args)
  | e@(.attribute _ value _) => e :: value.subterms
  | e@(.subscript _ value index) => e :: (value.subterms ++ index.subterms)

/-- The expressions in a list and all expressions below them. -/
def Expr.subtermsAll : List (Expr α) → List (Expr α)
  | [] => []
  | e :: rest => e.subterms ++ Expr.subtermsAll rest

/-- The condition of a comprehension and all expressions below it. -/
def Expr.subtermsCond : Option (Expr α) → List (Expr α)
  | none => []
  | some e => e.subterms

end

/-- An expression and all nodes below it. -/
def Expr.nodes (e : Expr α) : List (Node α) := e.subterms.map .expr

mutual

/-- A statement and all nodes below it, each before those below it. -/
def Stmt.nodes : Stmt α → List (Node α)
  | s@(.functionDef _ _ _ body) => .stmt s :: Block.nodes body
  | s@(.ret _ none) => [.stmt s]
  | s@(.ret _ (some value)) => .stmt s :: value.nodes
  | s@(.assign _ target value) => .stmt s :: (target.nodes ++ value.nodes)
  | s@(.augAssign _ target _ value) => .stmt s :: (target.nodes ++ value.nodes)
  | s@(.forLoop _ _ source body) => .stmt s :: (source.nodes ++ Block.nodes body)
  | s@(.whileLoop _ test body) => .stmt s :: (test.nodes ++ Block.nodes body)
  | s@(.ifElse _ test body orelse) =>
    .stmt s :: (test.nodes ++ Block.nodes body ++ Block.nodes orelse)
  | s@(.expr _ value) => .stmt s :: value.nodes
  | s@(.pass _) => [.stmt s]
  | s@(.brk _) => [.stmt s]
  | s@(.cont _) => [.stmt s]

/-- All nodes of a block. -/
def Block.nodes : List (Stmt α) → List (Node α)
  | [] => []
  | s :: rest => s.nodes ++ Block.nodes rest

end

mutual

/-- How deep statements are nested in the blocks of a statement, given the depth of
the statement itself. -/
def Stmt.depthFrom (depth : Nat) : Stmt α → Nat
  | .functionDef _ _ _ body => Block.depthFrom (depth + 1) depth body
  | .forLoop _ _ _ body => Block.depthFrom (depth + 1) depth body
  | .whileLoop _ _ body => Block.depthFrom (depth + 1) depth body
  | .ifElse _ _ body orelse =>
    max (Block.depthFrom (depth + 1) depth body) (Block.depthFrom (depth + 1) depth orelse)
  | _ => depth

/-- How deep statements are nested in a block whose statements stand at `depth`; an
empty block leaves the depth `around` it. -/
def Block.depthFrom (depth around : Nat) : List (Stmt α) → Nat
  | [] => around
  | s :: rest => max (s.depthFrom depth) (Block.depthFrom depth around rest)

end

/-- How deep statements are nested in a program; its own statements stand at depth
zero. -/
def Block.depth (body : Block α) : Nat := Block.depthFrom 0 0 body

end ProgramBreeding

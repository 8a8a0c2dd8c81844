import ProgramBreeding.Tree.Operator

/-!
# Programs as trees

Expressions and statements of the object language.  Every node carries a *tag*
of an arbitrary type `α`: the line it was read from while a program is parsed, a
label once the program is a tree that can be edited, and nothing at all when only
the shape of a program matters.

## Main definitions

* `Expr α`, `Stmt α` — expressions and statements with tags in `α`.
* `Block α` — a list of statements.
* `Expr.tag`, `Stmt.tag` — the tag of the topmost node.
* `Expr.map`, `Stmt.map`, `Block.map` — the same tree with other tags.

## Design notes

That a block holds statements and any other slot an expression is part of the
types.  What an assignment may be made to is not: parsing and editing both check
`Expr.isAssignable`.
-/

namespace ProgramBreeding

/-- Expressions whose nodes are tagged in `α`. -/
inductive Expr (α : Type) where
  /-- A variable. -/
  | name (tag : α) (id : String)
  /-- A constant. -/
  | constant (tag : α) (value : Literal)
  /-- A list display. -/
  | list (tag : α) (items : List (Expr α))
  /-- A comprehension with one loop and at most one condition. -/
  | comprehension (tag : α) (kind : ComprehensionKind) (element : Expr α) (var : String)
      (source : Expr α) (cond : Option (Expr α))
  /-- An arithmetic operation. -/
  | binary (tag : α) (op : BinaryOp) (left right : Expr α)
  /-- A unary operation. -/
  | unary (tag : α) (op : UnaryOp) (operand : Expr α)
  /-- A short-circuit operation. -/
  | logic (tag : α) (op : LogicOp) (left right : Expr α)
  /-- A comparison. -/
  | compare (tag : α) (op : CompareOp) (left right : Expr α)
  /-- A call of a function or method. -/
  | call (tag : α) (callee : Expr α) (args : List (Expr α))
  /-- An attribute. -/
  | attribute (tag : α) (value : Expr α) (attr : String)
  /-- An element of a sequence. -/
  | subscript (tag : α) (value index : Expr α)

/-- Statements whose nodes are tagged in `α`. -/
inductive Stmt (α : Type) where
  /-- A function definition. -/
  | functionDef (tag : α) (name : String) (params : List String) (body : List (Stmt α))
  /-- The end of a call. -/
  | ret (tag : α) (value : Option (Expr α))
  /-- An assignment. -/
  | assign (tag : α) (target value : Expr α)
  /-- An assignment combined with an operator. -/
  | augAssign (tag : α) (target : Expr α) (op : BinaryOp) (value : Expr α)
  /-- A loop over a sequence. -/
  | forLoop (tag : α) (var : String) (source : Expr α) (body : List (Stmt α))
  /-- A loop under a condition. -/
  | whileLoop (tag : α) (test : Expr α) (body : List (Stmt α))
  /-- A conditional; an empty `orelse` is no alternative. -/
  | ifElse (tag : α) (test : Expr α) (body orelse : List (Stmt α))
  /-- An expression evaluated for its effect. -/
  | expr (tag : α) (value : Expr α)
  /-- The empty statement. -/
  | pass (tag : α)
  /-- The end of a loop. -/
  | brk (tag : α)
  /-- The end of a round of a loop. -/
  | cont (tag : α)

/-- A list of statements. -/
abbrev Block (α : Type) := List (Stmt α)

variable {α β : Type}

/-- The tag of an expression's topmost node. -/
def Expr.tag : Expr α → α
  | .name t _ | .constant t _ | .list t _ | .comprehension t .. | .binary t .. | .unary t ..
  | .logic t .. | .compare t .. | .call t .. | .attribute t .. | .subscript t .. => t

/-- The tag of a statement's topmost node. -/
def Stmt.tag : Stmt α → α
  | .functionDef t .. | .ret t _ | .assign t .. | .augAssign t .. | .forLoop t ..
  | .whileLoop t .. | .ifElse t .. | .expr t _ | .pass t | .brk t | .cont t => t

/-- Whether an expression may stand on the left of an assignment. -/
def Expr.isAssignable : Expr α → Bool
  | .name .. | .subscript .. | .attribute .. => true
  | _ => false

/-! ### Other tags -/

mutual

/-- The same expression with other tags. -/
def Expr.map (f : α → β) : Expr α → Expr β
  | .name t id => .name (f t) id
  | .constant t value => .constant (f t) value
  | .list t items => .list (f t) (mapAll f items)
  | .comprehension t kind element var source cond =>
      .comprehension (f t) kind (element.map f) var (source.map f) (mapCond f cond)
  | .binary t op left right => .binary (f t) op (left.map f) (right.map f)
  | .unary t op operand => .unary (f t) op (operand.map f)
  | .logic t op left right => .logic (f t) op (left.map f) (right.map f)
  | .compare t op left right => .compare (f t) op (left.map f) (right.map f)
  | .call t callee args => .call (f t) (callee.map f) (mapAll f args)
  | .attribute t value attr => .attribute (f t) (value.map f) attr
  | .subscript t value index => .subscript (f t) (value.map f) (index.map f)

/-- The same expressions with other tags. -/
def Expr.mapAll (f : α → β) : List (Expr α) → List (Expr β)
  | [] => []
  | e :: rest => e.map f :: mapAll f rest

/-- The same condition with other tags. -/
def Expr.mapCond (f : α → β) : Option (Expr α) → Option (Expr β)
  | none => none
  | some e => some (e.map f)

end

mutual

/-- The same statement with other tags. -/
def Stmt.map (f : α → β) : Stmt α → Stmt β
  | .functionDef t name params body => .functionDef (f t) name params (Block.map f body)
  | .ret t value => .ret (f t) (value.map (·.map f))
  | .assign t target value => .assign (f t) (target.map f) (value.map f)
  | .augAssign t target op value => .augAssign (f t) (target.map f) op (value.map f)
  | .forLoop t var source body => .forLoop (f t) var (source.map f) (Block.map f body)
  | .whileLoop t test body => .whileLoop (f t) (test.map f) (Block.map f body)
  | .ifElse t test body orelse => .ifElse (f t) (test.map f) (Block.map f body) (Block.map f orelse)
  | .expr t value => .expr (f t) (value.map f)
  | .pass t => .pass (f t)
  | .brk t => .brk (f t)
  | .cont t => .cont (f t)

/-- The same block with other tags. -/
def Block.map (f : α → β) : List (Stmt α) → List (Stmt β)
  | [] => []
  | s :: rest => s.map f :: Block.map f rest

end

/-- The shape of a block: its tags forgotten. -/
def Block.shape (body : Block α) : Block Unit := Block.map (fun _ => ()) body

end ProgramBreeding

import ProgramBreeding.Number.Layout
import ProgramBreeding.Tree.Basic

/-!
# From trees to text

The canonical text of a program: four blanks for each level of indentation, and only
the parentheses that the binding strengths ask for.

## Main definitions

* `Strength` — how tightly an expression holds together.
* `strength` — the strength of an expression.
* `bareText`, `enclose` — the text of an expression, and of an expression in a place
  that asks for a strength.
* `renderStmt`, `renderStmts` — the text of statements at a level of indentation.
* `render` — the text of a program.

## Design notes

An expression is put in parentheses exactly where its strength is less than the place
asks for.  A generator is the weakest expression, so it keeps its parentheses
everywhere except as the only argument of a call.
-/

namespace ProgramBreeding.Source

variable {α : Type}

/-- Binding strengths. -/
abbrev Strength := Nat

namespace Strength

def generator : Strength := 0
def or : Strength := 1
def and : Strength := 2
def not : Strength := 3
def compare : Strength := 4
def sum : Strength := 5
def product : Strength := 6
def sign : Strength := 7
def power : Strength := 8
def atom : Strength := 9

/-- The strength of an arithmetic operator. -/
def ofBinary : BinaryOp → Strength
  | .add | .sub => sum
  | .mul | .div | .floorDiv | .mod => product
  | .pow => power

/-- The strength of a unary operator, and what its operand must have. -/
def ofUnary : UnaryOp → Strength
  | .not => not
  | .neg | .pos => sign

/-- The strength of a short-circuit operator. -/
def ofLogic : LogicOp → Strength
  | .or => or
  | .and => and

/-- What the left operand of an arithmetic operator must have: operators of one
strength group to the left, powers to the right. -/
def leftOf : BinaryOp → Strength
  | .pow => atom
  | op => ofBinary op

/-- What the right operand of an arithmetic operator must have. -/
def rightOf : BinaryOp → Strength
  | .pow => sign
  | op => ofBinary op + 1

/-- The strength of a constant: a negative number has a sign. -/
def ofLiteral : Literal → Strength
  | .int value => if value < 0 then sign else atom
  | .float value => if value.isNegative then sign else atom
  | _ => atom

end Strength

/-- The strength of an expression. -/
def strength : Expr α → Strength
  | .constant _ value => Strength.ofLiteral value
  | .comprehension _ .generator .. => Strength.generator
  | .binary _ op _ _ => Strength.ofBinary op
  | .unary _ op _ => Strength.ofUnary op
  | .logic _ op _ _ => Strength.ofLogic op
  | .compare .. => Strength.compare
  | _ => Strength.atom

/-- A character of a string literal. -/
def escape (c : Char) : String :=
  if c == '"' then "\\\""
  else if c == '\\' then "\\\\"
  else if c == '\n' then "\\n"
  else if c == '\t' then "\\t"
  else if c == '\r' then "\\r"
  else if c == '\x00' then "\\0"
  else c.toString

/-- The text of a constant. -/
def renderLiteral : Literal → String
  | .none => "None"
  | .bool true => "True"
  | .bool false => "False"
  | .int value => toString value.toInt
  | .float value => Number.sourceLayout.write value
  | .str value => "\"" ++ String.join (value.toList.map escape) ++ "\""

/-- The text of an expression, put in parentheses if the place asks for more strength
than the expression has. -/
def enclose (least : Strength) (e : Expr α) (text : String) : String :=
  if strength e < least then "(" ++ text ++ ")" else text

/-- The text of a unary operator. -/
def renderSign : UnaryOp → String
  | .neg => "-"
  | .pos => "+"
  | .not => "not "

/-- Whether the arguments of a call are a single generator. -/
def isSoleGenerator : List (Expr α) → Bool
  | [.comprehension _ .generator ..] => true
  | _ => false

mutual

/-- The text of an expression without parentheses around it. -/
def bareText : Expr α → String
  | .name _ id => id
  | .constant _ value => renderLiteral value
  | .list _ items => "[" ++ bareTexts Strength.or items ++ "]"
  | .comprehension _ kind element var source cond =>
    let clauses :=
      enclose Strength.or element (bareText element) ++ " for " ++ var ++ " in " ++
        enclose Strength.or source (bareText source) ++ condText cond
    match kind with
    | .list => "[" ++ clauses ++ "]"
    | .generator => clauses
  | .binary _ op left right =>
    enclose (Strength.leftOf op) left (bareText left) ++ " " ++ op.symbol ++ " " ++
      enclose (Strength.rightOf op) right (bareText right)
  | .unary _ op operand =>
    renderSign op ++ enclose (Strength.ofUnary op) operand (bareText operand)
  | .logic _ op left right =>
    enclose (Strength.ofLogic op) left (bareText left) ++ " " ++ op.symbol ++ " " ++
      enclose (Strength.ofLogic op + 1) right (bareText right)
  | .compare _ op left right =>
    enclose (Strength.compare + 1) left (bareText left) ++ " " ++ op.symbol ++ " " ++
      enclose (Strength.compare + 1) right (bareText right)
  | .call _ callee args =>
    enclose Strength.atom callee (bareText callee) ++ "(" ++
      bareTexts (if isSoleGenerator args then Strength.generator else Strength.or) args ++ ")"
  | .attribute _ value attr => enclose Strength.atom value (bareText value) ++ "." ++ attr
  | .subscript _ value index =>
    enclose Strength.atom value (bareText value) ++ "[" ++
      enclose Strength.or index (bareText index) ++ "]"

/-- The texts of expressions, separated by commas. -/
def bareTexts (least : Strength) : List (Expr α) → String
  | [] => ""
  | e :: rest => enclose least e (bareText e) ++ furtherTexts least rest

/-- The texts of expressions, each after a comma. -/
def furtherTexts (least : Strength) : List (Expr α) → String
  | [] => ""
  | e :: rest => ", " ++ enclose least e (bareText e) ++ furtherTexts least rest

/-- The text of the condition of a comprehension. -/
def condText : Option (Expr α) → String
  | none => ""
  | some e => " if " ++ enclose Strength.or e (bareText e)

end

/-- The text of an expression in a statement. -/
def expressionText (e : Expr α) : String := enclose Strength.or e (bareText e)

/-- A line at a level of indentation. -/
def indented (level : Nat) (text : String) : String :=
  String.ofList (List.replicate (4 * level) ' ') ++ text ++ "\n"

/-- The block that a list of statements stands for: no statement is written `pass`. -/
def orPass (level : Nat) (body : Block α) (text : String) : String :=
  if body.isEmpty then indented level "pass" else text

mutual

/-- The text of a statement at a level of indentation. -/
def renderStmt (level : Nat) : Stmt α → String
  | .functionDef _ name params body =>
    indented level ("def " ++ name ++ "(" ++ ", ".intercalate params ++ "):") ++
      orPass (level + 1) body (renderStmts (level + 1) body)
  | .ret _ none => indented level "return"
  | .ret _ (some value) => indented level ("return " ++ expressionText value)
  | .assign _ target value =>
    indented level (expressionText target ++ " = " ++ expressionText value)
  | .augAssign _ target op value =>
    indented level (expressionText target ++ " " ++ op.symbol ++ "= " ++ expressionText value)
  | .forLoop _ var source body =>
    indented level ("for " ++ var ++ " in " ++ expressionText source ++ ":") ++
      orPass (level + 1) body (renderStmts (level + 1) body)
  | .whileLoop _ test body =>
    indented level ("while " ++ expressionText test ++ ":") ++
      orPass (level + 1) body (renderStmts (level + 1) body)
  | .ifElse _ test body orelse =>
    indented level ("if " ++ expressionText test ++ ":") ++
      orPass (level + 1) body (renderStmts (level + 1) body) ++ renderOrelse level orelse
  | .expr _ value => indented level (expressionText value)
  | .pass _ => indented level "pass"
  | .brk _ => indented level "break"
  | .cont _ => indented level "continue"

/-- The text of the statements of a block. -/
def renderStmts (level : Nat) : List (Stmt α) → String
  | [] => ""
  | s :: rest => renderStmt level s ++ renderStmts level rest

/-- The text of the alternative of a conditional: a conditional alone continues the
chain. -/
def renderOrelse (level : Nat) : List (Stmt α) → String
  | [] => ""
  | [.ifElse _ test body orelse] =>
    indented level ("elif " ++ expressionText test ++ ":") ++
      orPass (level + 1) body (renderStmts (level + 1) body) ++ renderOrelse level orelse
  | s :: rest =>
    indented level "else:" ++ renderStmt (level + 1) s ++ renderStmts (level + 1) rest

end

/-- The text of a program. -/
def render (body : Block α) : String := renderStmts 0 body

end ProgramBreeding.Source

import ProgramBreeding.Source.Lexer
import ProgramBreeding.Tree.Basic

/-!
# From tokens to trees

A recursive-descent parser.  Every node of the result is tagged with the line of the
token that it is named after: the operator of an operation, the bracket of a call or
subscript, the first token of anything else.

## Main definitions

* `Parser` — functions that consume tokens.
* `Level` — the parsers that are entered one nesting level further in.
* `level` — the parsers with a number of levels left.
* `parse` — the program that a text denotes, or the first error.

## Design notes

Sub-expressions and blocks may be nested `maxNesting` deep, so the grammar is a
recursion on the number of levels left: the rules of one level are built from the
parsers one level further in, and without a level left those fail.  Inside a level
the only repetition is along the tokens; such loops are bounded by the number of
tokens, which they can never exhaust, because every round consumes one.
-/

namespace ProgramBreeding.Source

/-- The tag of a node that has just been read: the line it stands on. -/
abbrev Line := Nat

/-- Functions that consume tokens; the last token is the end of the input. -/
abbrev Parser := StateT (List Token) (Except ParseError)

namespace Parser

/-- The next token. -/
def current : Parser Token := fun ts =>
  match ts with
  | [] => .ok (⟨.endOfInput, 1, 1⟩, [])
  | t :: rest => .ok (t, t :: rest)

/-- Consumes a token, unless it is the last one. -/
def advance : Parser Unit := fun ts =>
  match ts with
  | _ :: t :: rest => .ok ((), t :: rest)
  | ts => .ok ((), ts)

/-- An error at a token. -/
def failAt {α : Type} (t : Token) (cause : Cause) : Parser α :=
  throw ⟨t.line, t.column, cause⟩

/-- An error at the next token. -/
def fail {α : Type} (cause : Cause) : Parser α := do
  failAt (← current) cause

/-- An error that names the next token. -/
def failExpecting {α : Type} (wanted : Wanted) : Parser α := do
  let t ← current
  failAt t (.expected wanted t.kind)

/-- The line of the next token. -/
def line : Parser Line := do
  return (← current).line

/-- Whether the next token is the given symbol. -/
def at? (wanted : Symbol) : Parser Bool := do
  return (← current).kind.isSymbol wanted

/-- Whether the next token ends a logical line. -/
def atNewline : Parser Bool := do
  match (← current).kind with
  | .newline => return true
  | _ => return false

/-- Whether no token is left. -/
def atEnd : Parser Bool := do
  match (← current).kind with
  | .endOfInput => return true
  | _ => return false

/-- Consumes the given symbol, if it is next. -/
def eat? (wanted : Symbol) : Parser Bool := do
  if ← at? wanted then
    advance
    return true
  else
    return false

/-- Consumes the end of a logical line, if it is next. -/
def eatNewline? : Parser Bool := do
  if ← atNewline then
    advance
    return true
  else
    return false

/-- Consumes the given symbol. -/
def expect (wanted : Symbol) : Parser Unit := do
  unless ← eat? wanted do failExpecting (.symbol wanted)

/-- Consumes an identifier. -/
def name : Parser String := do
  match (← current).kind with
  | .name id =>
    advance
    return id
  | _ => failExpecting .identifier

/-- Fails if the given symbol is next. -/
def refuse (symbol : Symbol) (feature : Feature) : Parser Unit := do
  if ← at? symbol then fail (.unsupported feature)

/-! ### Operators -/

/-- The sum operator that a token is. -/
def sumOp? : TokenKind → Option BinaryOp
  | .symbol .plus => some .add
  | .symbol .minus => some .sub
  | _ => none

/-- The product operator that a token is. -/
def productOp? : TokenKind → Option BinaryOp
  | .symbol .star => some .mul
  | .symbol .slash => some .div
  | .symbol .slashSlash => some .floorDiv
  | .symbol .percent => some .mod
  | _ => none

/-- The sign that a token is. -/
def signOp? : TokenKind → Option UnaryOp
  | .symbol .minus => some .neg
  | .symbol .plus => some .pos
  | _ => none

/-- The disjunction that a token is. -/
def orOp? : TokenKind → Option LogicOp
  | .symbol .kwOr => some .or
  | _ => none

/-- The conjunction that a token is. -/
def andOp? : TokenKind → Option LogicOp
  | .symbol .kwAnd => some .and
  | _ => none

/-- The operator of an augmented assignment that a token is. -/
def augmentedOp? : TokenKind → Option BinaryOp
  | .symbol .plusEq => some .add
  | .symbol .minusEq => some .sub
  | .symbol .starEq => some .mul
  | .symbol .slashEq => some .div
  | .symbol .slashSlashEq => some .floorDiv
  | .symbol .percentEq => some .mod
  | _ => none

/-- The comparison that the next tokens are, and their number. -/
def compareOp? : List Token → Option (CompareOp × Nat)
  | [] => none
  | t :: rest =>
    match t.kind with
    | .symbol .lt => some (.lt, 1)
    | .symbol .gt => some (.gt, 1)
    | .symbol .ltEq => some (.le, 1)
    | .symbol .gtEq => some (.ge, 1)
    | .symbol .eqEq => some (.eq, 1)
    | .symbol .bangEq => some (.ne, 1)
    | .symbol .kwIn => some (.mem, 1)
    | .symbol .kwNot =>
      if rest.head?.any fun next => next.kind.isSymbol .kwIn then some (.notMem, 2) else none
    | _ => none

/-- Operands joined by operators, grouped to the left; `left` is what has been read and
`count` bounds the number of operators. -/
def chainAfter {ω : Type} (op? : TokenKind → Option ω) (operand : Parser (Expr Line))
    (join : Line → ω → Expr Line → Expr Line → Expr Line) :
    Nat → Expr Line → Parser (Expr Line)
  | 0, left => pure left
  | count + 1, left => do
    let t ← current
    match op? t.kind with
    | none => pure left
    | some op =>
      advance
      let right ← operand
      chainAfter op? operand join count (join t.line op left right)

/-- Operands joined by operators, grouped to the left. -/
def chain {ω : Type} (bound : Nat) (op? : TokenKind → Option ω) (operand : Parser (Expr Line))
    (join : Line → ω → Expr Line → Expr Line → Expr Line) : Parser (Expr Line) := do
  chainAfter op? operand join bound (← operand)

end Parser

open ProgramBreeding.Source.Parser

/-- The parsers that are entered one nesting level further in. -/
structure Level where
  orExpr : Parser (Expr Line)
  notExpr : Parser (Expr Line)
  factor : Parser (Expr Line)
  /-- The statements of a block, after its colon. -/
  block : Parser (Block Line)

namespace Level

/-- Without a level left nothing can be entered. -/
def exhausted : Level where
  orExpr := fail .nestingTooDeep
  notExpr := fail .nestingTooDeep
  factor := fail .nestingTooDeep
  block := fail .nestingTooDeep

/-! ### Expressions

`inner` are the parsers one level further in, `bound` is the number of tokens. -/

/-- An expression inside brackets or a statement. -/
def expression (inner : Level) : Parser (Expr Line) := inner.orExpr

/-- The clauses of a comprehension, after its element. -/
def clauses (inner : Level) (kind : ComprehensionKind) (element : Expr Line) :
    Parser (Expr Line) := do
  let line ← line
  expect .kwFor
  let var ← name
  refuse .comma .tupleUnpacking
  expect .kwIn
  let source ← inner.orExpr
  let cond ← if ← eat? .kwIf then some <$> inner.orExpr else pure none
  if (← at? .kwFor) || (← at? .kwIf) then fail .extraClause
  return .comprehension line kind element var source cond

/-- The items of a bracket that have not been read, given those that have, reversed.
The first item may start a comprehension. -/
def itemsAfter (inner : Level) (kind : ComprehensionKind) (close : Symbol)
    (check : Parser Unit) : Nat → List (Expr Line) → Parser (Expr Line ⊕ List (Expr Line))
  | 0, items => do
    expect close
    return .inr items.reverse
  | count + 1, items => do
    if ← eat? close then return .inr items.reverse
    let item ← inner.expression
    if items.isEmpty && (← at? .kwFor) then
      let found ← inner.clauses kind item
      expect close
      return .inl found
    check
    if ← eat? .comma then itemsAfter inner kind close check count (item :: items)
    else
      expect close
      return .inr (item :: items).reverse

/-- The arguments of a call, after its bracket.  A generator needs no brackets of its
own if it is the only argument. -/
def callArgs (bound : Nat) (inner : Level) : Parser (List (Expr Line)) := do
  match ← inner.itemsAfter .generator .rightParen (refuse .eq .keywordArguments) bound [] with
  | .inl found => return [found]
  | .inr args => return args

/-- A list display or list comprehension, after its bracket. -/
def listDisplay (bound : Nat) (inner : Level) (line : Line) : Parser (Expr Line) := do
  match ← inner.itemsAfter .list .rightBracket (pure ()) bound [] with
  | .inl found => return found
  | .inr items => return .list line items

/-- An expression in parentheses, after the opening one. -/
def parenthesized (inner : Level) : Parser (Expr Line) := do
  refuse .rightParen .tuples
  let first ← inner.expression
  let found ← if ← at? .kwFor then inner.clauses .generator first else pure first
  refuse .comma .tuples
  expect .rightParen
  return found

/-- The value of string literals that follow each other. -/
def stringsAfter : Nat → String → Parser String
  | 0, value => pure value
  | count + 1, value => do
    match (← current).kind with
    | .str next =>
      advance
      stringsAfter count (value ++ next)
    | _ => pure value

/-- A name, a constant or a bracket. -/
def atom (bound : Nat) (inner : Level) : Parser (Expr Line) := do
  let t ← current
  advance
  match t.kind with
  | .name id => return .name t.line id
  | .int value => return .constant t.line (.int value)
  | .float value => return .constant t.line (.float value)
  | .str value => return .constant t.line (.str (← stringsAfter bound value))
  | .symbol .kwTrue => return .constant t.line (.bool true)
  | .symbol .kwFalse => return .constant t.line (.bool false)
  | .symbol .kwNone => return .constant t.line .none
  | .symbol .leftParen => inner.parenthesized
  | .symbol .leftBracket => inner.listDisplay bound t.line
  | .symbol .kwLambda => failAt t (.unsupported (.keyword .kwLambda))
  | .symbol .leftBrace => failAt t (.unsupported .dictsAndSets)
  | kind => failAt t (.unexpected kind)

/-- The index of a subscript, after its bracket. -/
def subscriptIndex (inner : Level) : Parser (Expr Line) := do
  refuse .colon .slices
  let index ← inner.expression
  refuse .colon .slices
  expect .rightBracket
  return index

/-- Calls, subscripts and attributes of what has been read. -/
def postfixAfter (bound : Nat) (inner : Level) : Nat → Expr Line → Parser (Expr Line)
  | 0, value => pure value
  | count + 1, value => do
    let t ← current
    match t.kind with
    | .symbol .leftParen =>
      advance
      let args ← inner.callArgs bound
      postfixAfter bound inner count (.call t.line value args)
    | .symbol .leftBracket =>
      advance
      let index ← inner.subscriptIndex
      postfixAfter bound inner count (.subscript t.line value index)
    | .symbol .dot =>
      advance
      let attr ← name
      postfixAfter bound inner count (.attribute t.line value attr)
    | _ => pure value

/-- An atom with its calls, subscripts and attributes. -/
def postfixed (bound : Nat) (inner : Level) : Parser (Expr Line) := do
  inner.postfixAfter bound bound (← inner.atom bound)

/-- A power; its exponent may have a sign. -/
def power (bound : Nat) (inner : Level) : Parser (Expr Line) := do
  let base ← inner.postfixed bound
  let t ← current
  if t.kind.isSymbol .starStar then
    advance
    let exponent ← inner.factor
    return .binary t.line .pow base exponent
  else
    return base

/-- A power with signs. -/
def factorRule (bound : Nat) (inner : Level) : Parser (Expr Line) := do
  let t ← current
  match signOp? t.kind with
  | some op =>
    advance
    let operand ← inner.factor
    return .unary t.line op operand
  | none => inner.power bound

/-- A product. -/
def term (bound : Nat) (inner : Level) : Parser (Expr Line) :=
  chain bound productOp? (inner.factorRule bound) .binary

/-- A sum. -/
def arith (bound : Nat) (inner : Level) : Parser (Expr Line) :=
  chain bound sumOp? (inner.term bound) .binary

/-- At most one comparison. -/
def comparison (bound : Nat) (inner : Level) : Parser (Expr Line) := do
  let left ← inner.arith bound
  match compareOp? (← get) with
  | none => return left
  | some (op, width) =>
    let line ← line
    advance
    if width = 2 then advance
    let right ← inner.arith bound
    if (compareOp? (← get)).isSome then fail (.unsupported .chainedComparisons)
    refuse .kwIs .identityTest
    return .compare line op left right

/-- A comparison with negations. -/
def notRule (bound : Nat) (inner : Level) : Parser (Expr Line) := do
  let t ← current
  if t.kind.isSymbol .kwNot then
    advance
    let operand ← inner.notExpr
    return .unary t.line .not operand
  else
    inner.comparison bound

/-- A conjunction. -/
def andRule (bound : Nat) (inner : Level) : Parser (Expr Line) :=
  chain bound andOp? (inner.notRule bound) .logic

/-- A disjunction. -/
def orRule (bound : Nat) (inner : Level) : Parser (Expr Line) :=
  chain bound orOp? (inner.andRule bound) .logic

/-! ### Statements -/

/-- Fails unless an assignment can be made to the expression. -/
def checkTarget (target : Expr Line) : Parser Unit :=
  unless target.isAssignable do throw ⟨target.tag, 1, .notAssignable⟩

/-- The value after `return`, if there is one. -/
def returnValue (inner : Level) : Parser (Option (Expr Line)) := do
  if (← atNewline) || (← atEnd) || (← at? .semicolon) then return none
  else return some (← inner.expression)

/-- An assignment or an expression. -/
def expressionStatement (inner : Level) (line : Line) : Parser (Stmt Line) := do
  let first ← inner.expression
  refuse .comma .tuples
  let t ← current
  if t.kind.isSymbol .eq then
    advance
    checkTarget first
    let value ← inner.expression
    refuse .eq .chainedAssignment
    return .assign line first value
  match augmentedOp? t.kind with
  | some op =>
    advance
    checkTarget first
    let value ← inner.expression
    return .augAssign line first op value
  | none => return .expr line first

/-- A statement that holds no block. -/
def simpleStatement (inner : Level) : Parser (Stmt Line) := do
  let t ← current
  match t.kind with
  | .symbol .kwPass =>
    advance
    return .pass t.line
  | .symbol .kwBreak =>
    advance
    return .brk t.line
  | .symbol .kwContinue =>
    advance
    return .cont t.line
  | .symbol .kwReturn =>
    advance
    return .ret t.line (← inner.returnValue)
  | _ => inner.expressionStatement t.line

/-- The statements of a line that have not been read, given those that have, reversed.
A semicolon may end the line. -/
def lineAfter (inner : Level) : Nat → List (Stmt Line) → Parser (List (Stmt Line))
  | 0, found => return found.reverse
  | count + 1, found => do
    let s ← inner.simpleStatement
    if !(← eat? .semicolon) || (← atNewline) || (← atEnd) then return (s :: found).reverse
    else lineAfter inner count (s :: found)

/-- The statements of a logical line without blocks. -/
def simpleStatements (bound : Nat) (inner : Level) : Parser (List (Stmt Line)) := do
  let found ← inner.lineAfter bound []
  if !(← eatNewline?) && !(← atEnd) then failExpecting .endOfStatement
  return found

/-- The block of a compound statement. -/
def suite (inner : Level) : Parser (Block Line) := do
  expect .colon
  inner.block

/-- The parameters of a function up to the closing bracket, given those that have been
read, reversed. -/
def paramsAfter : Nat → List String → Parser (List String)
  | 0, params => do
    expect .rightParen
    return params.reverse
  | count + 1, params => do
    if ← eat? .rightParen then return params.reverse
    let param ← name
    if params.contains param then fail (.duplicateArgument param)
    if (← at? .eq) || (← at? .colon) then fail (.unsupported .defaultsAndAnnotations)
    if ← eat? .comma then paramsAfter count (param :: params)
    else
      expect .rightParen
      return (param :: params).reverse

/-- A function definition, after its keyword. -/
def functionDef (bound : Nat) (inner : Level) (line : Line) : Parser (Stmt Line) := do
  let id ← name
  expect .leftParen
  let params ← paramsAfter bound []
  let body ← inner.suite
  return .functionDef line id params body

/-- The alternatives of a conditional. -/
def alternatives (inner : Level) : Nat → Parser (Block Line)
  | 0 => pure []
  | count + 1 => do
    let t ← current
    match t.kind with
    | .symbol .kwElif =>
      advance
      let test ← inner.expression
      let body ← inner.suite
      let orelse ← alternatives inner count
      return [.ifElse t.line test body orelse]
    | .symbol .kwElse =>
      advance
      inner.suite
    | _ => pure []

/-- A conditional, after its keyword. -/
def conditional (bound : Nat) (inner : Level) (line : Line) : Parser (Stmt Line) := do
  let test ← inner.expression
  let body ← inner.suite
  let orelse ← inner.alternatives bound
  return .ifElse line test body orelse

/-- A loop under a condition, after its keyword. -/
def whileStatement (inner : Level) (line : Line) : Parser (Stmt Line) := do
  let test ← inner.expression
  let body ← inner.suite
  refuse .kwElse .loopElse
  return .whileLoop line test body

/-- A loop over a sequence, after its keyword. -/
def forStatement (inner : Level) (line : Line) : Parser (Stmt Line) := do
  let var ← name
  refuse .comma .tupleUnpacking
  expect .kwIn
  let source ← inner.expression
  let body ← inner.suite
  refuse .kwElse .loopElse
  return .forLoop line var source body

/-- Keywords of statements that the language leaves out. -/
def unsupportedKeywords : List Symbol :=
  [.kwClass, .kwImport, .kwFrom, .kwWith, .kwTry, .kwLambda, .kwYield, .kwGlobal, .kwDel,
    .kwAssert, .kwRaise]

/-- A compound statement, or the statements of a line. -/
def statement (bound : Nat) (inner : Level) : Parser (List (Stmt Line)) := do
  let t ← current
  match t.kind with
  | .symbol .kwDef =>
    advance
    return [← inner.functionDef bound t.line]
  | .symbol .kwIf =>
    advance
    return [← inner.conditional bound t.line]
  | .symbol .kwWhile =>
    advance
    return [← inner.whileStatement t.line]
  | .symbol .kwFor =>
    advance
    return [← inner.forStatement t.line]
  | .symbol s =>
    if unsupportedKeywords.contains s then fail (.unsupported (.keyword s))
    else inner.simpleStatements bound
  | .indent => fail .unexpectedIndent
  | _ => inner.simpleStatements bound

/-- The statements of an indented block up to its end, given those that have been read,
reversed. -/
def blockAfter (bound : Nat) (inner : Level) : Nat → List (Stmt Line) → Parser (Block Line)
  | 0, found => return found.reverse
  | count + 1, found => do
    match (← current).kind with
    | .dedent =>
      advance
      return found.reverse
    | .endOfInput => return found.reverse
    | _ =>
      let ss ← inner.statement bound
      blockAfter bound inner count (ss.reverse ++ found)

/-- A block: an indented one on lines of its own, or statements on the same line. -/
def blockRule (bound : Nat) (inner : Level) : Parser (Block Line) := do
  if ← eatNewline? then
    match (← current).kind with
    | .indent =>
      advance
      inner.blockAfter bound bound []
    | _ => failExpecting .indentedBlock
  else
    inner.simpleStatements bound

/-- The parsers around those of a level. -/
def outward (bound : Nat) (inner : Level) : Level where
  orExpr := inner.orRule bound
  notExpr := inner.notRule bound
  factor := inner.factorRule bound
  block := inner.blockRule bound

end Level

/-- The parsers with a number of levels left. -/
def level (bound : Nat) : Nat → Level
  | 0 => .exhausted
  | depth + 1 => (level bound depth).outward bound

/-- How deep blocks and sub-expressions may be nested. -/
def maxNesting : Nat := 100

/-- The statements of a program up to the end of the input, given those that have been
read, reversed. -/
def programAfter (bound : Nat) (inner : Level) : Nat → List (Stmt Line) → Parser (Block Line)
  | 0, found => return found.reverse
  | count + 1, found => do
    match (← current).kind with
    | .endOfInput => return found.reverse
    | .newline =>
      advance
      programAfter bound inner count found
    | _ =>
      let ss ← inner.statement bound
      programAfter bound inner count (ss.reverse ++ found)

/-- The program that a list of tokens denotes, nested within a number of levels. -/
def parseTokensWithin (levels : Nat) (ts : List Token) : Except ParseError (Block Line) :=
  (programAfter ts.length (level ts.length levels) ts.length []).run' ts

/-- The program that a list of tokens denotes. -/
def parseTokens (ts : List Token) : Except ParseError (Block Line) :=
  parseTokensWithin maxNesting ts

/-- The program that a text denotes, or the first error. -/
def parse (text : String) : Except ParseError (Block Line) := do
  parseTokens (← tokenize text)

end ProgramBreeding.Source

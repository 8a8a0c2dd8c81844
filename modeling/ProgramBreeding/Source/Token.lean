import ProgramBreeding.Number.Layout

/-!
# Tokens

The lexical elements of source text with their positions, and the words by which
messages name them.

## Main definitions

* `Symbol` — keywords and operators, with `Symbol.spelling`.
* `Symbol.keyword?` — the keyword a word spells.
* `Symbol.operators` — the operators, a longer spelling before any of its beginnings.
* `TokenKind`, `Token` — tokens without and with a position.
* `TokenKind.describe` — the name of a token in a message.
-/

namespace ProgramBreeding.Source

/-- Keywords and operators. -/
inductive Symbol where
  | kwDef | kwReturn | kwIf | kwElif | kwElse | kwWhile | kwFor | kwIn | kwNot | kwAnd | kwOr
  | kwPass | kwBreak | kwContinue | kwTrue | kwFalse | kwNone | kwClass | kwImport | kwFrom
  | kwLambda | kwIs | kwWith | kwTry | kwExcept | kwYield | kwGlobal | kwDel | kwAssert
  | kwRaise
  | slashSlashEq | starStar | slashSlash | plusEq | minusEq | starEq | slashEq | percentEq
  | eqEq | bangEq | ltEq | gtEq | arrow | plus | minus | star | slash | percent | lt | gt | eq
  | leftParen | rightParen | leftBracket | rightBracket | leftBrace | rightBrace | comma
  | colon | dot | semicolon
  deriving DecidableEq, Repr

/-- How a symbol is written. -/
def Symbol.spelling : Symbol → String
  | .kwDef => "def"
  | .kwReturn => "return"
  | .kwIf => "if"
  | .kwElif => "elif"
  | .kwElse => "else"
  | .kwWhile => "while"
  | .kwFor => "for"
  | .kwIn => "in"
  | .kwNot => "not"
  | .kwAnd => "and"
  | .kwOr => "or"
  | .kwPass => "pass"
  | .kwBreak => "break"
  | .kwContinue => "continue"
  | .kwTrue => "True"
  | .kwFalse => "False"
  | .kwNone => "None"
  | .kwClass => "class"
  | .kwImport => "import"
  | .kwFrom => "from"
  | .kwLambda => "lambda"
  | .kwIs => "is"
  | .kwWith => "with"
  | .kwTry => "try"
  | .kwExcept => "except"
  | .kwYield => "yield"
  | .kwGlobal => "global"
  | .kwDel => "del"
  | .kwAssert => "assert"
  | .kwRaise => "raise"
  | .slashSlashEq => "//="
  | .starStar => "**"
  | .slashSlash => "//"
  | .plusEq => "+="
  | .minusEq => "-="
  | .starEq => "*="
  | .slashEq => "/="
  | .percentEq => "%="
  | .eqEq => "=="
  | .bangEq => "!="
  | .ltEq => "<="
  | .gtEq => ">="
  | .arrow => "->"
  | .plus => "+"
  | .minus => "-"
  | .star => "*"
  | .slash => "/"
  | .percent => "%"
  | .lt => "<"
  | .gt => ">"
  | .eq => "="
  | .leftParen => "("
  | .rightParen => ")"
  | .leftBracket => "["
  | .rightBracket => "]"
  | .leftBrace => "\x7b"
  | .rightBrace => "\x7d"
  | .comma => ","
  | .colon => ":"
  | .dot => "."
  | .semicolon => ";"

/-- The keywords. -/
def Symbol.keywords : List Symbol :=
  [.kwDef, .kwReturn, .kwIf, .kwElif, .kwElse, .kwWhile, .kwFor, .kwIn, .kwNot, .kwAnd, .kwOr,
    .kwPass, .kwBreak, .kwContinue, .kwTrue, .kwFalse, .kwNone, .kwClass, .kwImport, .kwFrom,
    .kwLambda, .kwIs, .kwWith, .kwTry, .kwExcept, .kwYield, .kwGlobal, .kwDel, .kwAssert,
    .kwRaise]

/-- The operators, a longer spelling before any of its beginnings. -/
def Symbol.operators : List Symbol :=
  [.slashSlashEq, .starStar, .slashSlash, .plusEq, .minusEq, .starEq, .slashEq, .percentEq,
    .eqEq, .bangEq, .ltEq, .gtEq, .arrow, .plus, .minus, .star, .slash, .percent, .lt, .gt, .eq,
    .leftParen, .rightParen, .leftBracket, .rightBracket, .leftBrace, .rightBrace, .comma,
    .colon, .dot, .semicolon]

/-- The operators with the characters they are written with, in the same order. -/
def Symbol.spelledOperators : List (List Char × Symbol) :=
  Symbol.operators.map fun symbol => (symbol.spelling.toList, symbol)

/-- The keyword that a word spells, if it spells one. -/
def Symbol.keyword? (word : String) : Option Symbol :=
  Symbol.keywords.find? fun symbol => symbol.spelling == word

/-- Tokens without their positions. -/
inductive TokenKind where
  | name (id : String)
  | int (value : Int64)
  | float (value : Double)
  | str (value : String)
  | symbol (symbol : Symbol)
  /-- The end of a logical line. -/
  | newline
  /-- The start of an indented block. -/
  | indent
  /-- The end of an indented block. -/
  | dedent
  /-- The end of the text. -/
  | endOfInput

/-- A token and where it starts; lines and columns count from one. -/
structure Token where
  kind : TokenKind
  line : Nat
  column : Nat

/-- Whether a token is the given symbol. -/
def TokenKind.isSymbol (kind : TokenKind) (wanted : Symbol) : Bool :=
  match kind with
  | .symbol found => found == wanted
  | _ => false

/-- The name of a token in a message. -/
def TokenKind.describe : TokenKind → String
  | .name id => "identifier '" ++ id ++ "'"
  | .int value => "number " ++ toString value.toInt
  | .float value => "number " ++ Number.plainLayout.write value
  | .str _ => "string literal"
  | .symbol s => "'" ++ s.spelling ++ "'"
  | .newline => "end of line"
  | .indent => "indent"
  | .dedent => "dedent"
  | .endOfInput => "end of input"

end ProgramBreeding.Source

import ProgramBreeding.Source.Token
import ProgramBreeding.Text.Character

/-!
# Errors in source text

Why a text is no program, with the wording of each cause in one place.
-/

namespace ProgramBreeding.Source

/-- Constructs that the language leaves out. -/
inductive Feature where
  | keyword (symbol : Symbol)
  | tuples
  | chainedAssignment
  | defaultsAndAnnotations
  | loopElse
  | tupleUnpacking
  | chainedComparisons
  | identityTest
  | slices
  | keywordArguments
  | dictsAndSets
  deriving DecidableEq, Repr

/-- The message about a construct that the language leaves out. -/
def Feature.message : Feature → String
  | .keyword s => "'" ++ s.spelling ++ "' is not supported"
  | .tuples => "tuples are not supported"
  | .chainedAssignment => "chained assignment is not supported"
  | .defaultsAndAnnotations => "defaults and annotations are not supported"
  | .loopElse => "loop 'else' clauses are not supported"
  | .tupleUnpacking => "tuple unpacking is not supported"
  | .chainedComparisons => "chained comparisons are not supported"
  | .identityTest => "'is' is not supported"
  | .slices => "slices are not supported"
  | .keywordArguments => "keyword arguments are not supported"
  | .dictsAndSets => "dicts and sets are not supported"

/-- What the grammar asks for at a position. -/
inductive Wanted where
  | symbol (symbol : Symbol)
  | indentedBlock
  | identifier
  | endOfStatement
  deriving DecidableEq, Repr

/-- The name of what the grammar asks for. -/
def Wanted.describe : Wanted → String
  | .symbol s => "'" ++ s.spelling ++ "'"
  | .indentedBlock => "an indented block"
  | .identifier => "identifier"
  | .endOfStatement => "end of statement"

/-- Why a text is no program. -/
inductive Cause where
  /-- A line is indented less than its block and not as any block around it. -/
  | unmatchedUnindent
  /-- A letter follows a number directly. -/
  | invalidNumber
  /-- A numeral with a point or an exponent has no value. -/
  | invalidFloat
  /-- A numeral is greater than every finite double. -/
  | floatOutOfRange
  /-- A whole number does not fit in 64 bits. -/
  | integerTooLarge
  | tripleQuotes
  | unterminatedString
  | unsupportedEscape
  | unexpectedCharacter (c : Char)
  | nestingTooDeep
  | unsupported (feature : Feature)
  /-- A comprehension has a second loop or condition. -/
  | extraClause
  | unexpectedIndent
  | unexpected (found : TokenKind)
  | expected (wanted : Wanted) (found : TokenKind)
  | duplicateArgument (name : String)
  | notAssignable

/-- The wording of a cause. -/
def Cause.message : Cause → String
  | .unmatchedUnindent => "unindent does not match any outer indentation level"
  | .invalidNumber => "invalid number literal"
  | .invalidFloat => "invalid float literal"
  | .floatOutOfRange => "float literal out of range"
  | .integerTooLarge => "integer literal too large"
  | .tripleQuotes => "triple-quoted strings are not supported"
  | .unterminatedString => "unterminated string literal"
  | .unsupportedEscape => "unsupported escape sequence"
  | .unexpectedCharacter c => "unexpected character " ++ Text.quotedCharacter c
  | .nestingTooDeep => "nesting too deep"
  | .unsupported feature => feature.message
  | .extraClause => "only one 'for' and one 'if' clause are supported"
  | .unexpectedIndent => "unexpected indent"
  | .unexpected found => "unexpected " ++ found.describe
  | .expected wanted found => "expected " ++ wanted.describe ++ ", found " ++ found.describe
  | .duplicateArgument name => "duplicate argument '" ++ name ++ "'"
  | .notAssignable => "cannot assign to expression"

/-- A cause and where it was found; lines and columns count from one. -/
structure ParseError where
  line : Nat
  column : Nat
  cause : Cause

/-- The message of an error, without its position. -/
def ParseError.message (e : ParseError) : String := e.cause.message

/-- The message of an error with its position. -/
def ParseError.display (e : ParseError) : String :=
  "line " ++ toString e.line ++ ", column " ++ toString e.column ++ ": " ++ e.message

end ProgramBreeding.Source

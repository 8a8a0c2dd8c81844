import ProgramBreeding.Source.Error
import ProgramBreeding.Number.Numeral

/-!
# From text to tokens

Source text is cut into tokens from left to right.  Indentation outside brackets
becomes `indent` and `dedent` tokens, as many of one kind as of the other.

## Main definitions

* `Scan` — a position in the text with what has been found before it.
* `Scan.step` — one lexeme further.
* `tokenize` — the tokens of a text, or the first error.

## Design notes

Every step moves past at least one character, so a text of `n` characters is read in
at most `n` steps and `Scan.run` recurses on that number.  Blank lines and lines that
hold only a comment have no indentation.
-/

namespace ProgramBreeding.Source

/-- A position in the text with what has been found before it. -/
structure Scan where
  /-- The characters not read yet. -/
  rest : List Char
  /-- The line of the next character. -/
  line : Nat := 1
  /-- The column of the next character. -/
  column : Nat := 1
  /-- The widths of the open blocks, the innermost first. -/
  indents : List Nat := [0]
  /-- The number of open brackets. -/
  depth : Nat := 0
  /-- Whether the indentation of this line is still to be read. -/
  atLineStart : Bool := true
  /-- The tokens found, the last one first. -/
  tokens : List Token := []

namespace Scan

/-- An error at the current position. -/
def fail {α : Type} (s : Scan) (cause : Cause) : Except ParseError α :=
  .error ⟨s.line, s.column, cause⟩

/-- Adds a token that starts in the given column of the current line. -/
def emit (s : Scan) (kind : TokenKind) (column : Nat) : Scan :=
  { s with tokens := ⟨kind, s.line, column⟩ :: s.tokens }

/-- Moves past `count` characters of the current line. -/
def advance (s : Scan) (count : Nat) (rest : List Char) : Scan :=
  { s with rest := rest, column := s.column + count }

/-- Moves to the start of the next line. -/
def nextLine (s : Scan) (rest : List Char) : Scan :=
  { s with rest := rest, line := s.line + 1, column := 1 }

/-- Whether the last token leaves a logical line open. -/
def lineIsOpen (s : Scan) : Bool :=
  match s.tokens with
  | [] => false
  | ⟨kind, _, _⟩ :: _ =>
    match kind with
    | .newline | .indent | .dedent => false
    | _ => true

/-! ### Indentation -/

/-- The width of the blanks at the start of a list, given the width before them, their
number and what follows.  A tab goes to the next multiple of eight, a form feed
back to zero. -/
def measure (width count : Nat) : List Char → Nat × Nat × List Char
  | ' ' :: rest => measure (width + 1) (count + 1) rest
  | '\t' :: rest => measure ((width / 8 + 1) * 8) (count + 1) rest
  | '\x0c' :: rest => measure 0 (count + 1) rest
  | rest => (width, count, rest)

/-- The characters of a comment at the start of a list, and what follows. -/
def spanComment (cs : List Char) : List Char × List Char :=
  (cs.takeWhile (· != '\n'), cs.dropWhile (· != '\n'))

/-- Closes the blocks that are wider than `width`. -/
def closeBlocks (width : Nat) : List Nat → Scan → Scan
  | [], s => { s with indents := [] }
  | w :: outer, s =>
    if width < w then closeBlocks width outer (s.emit .dedent 1)
    else { s with indents := w :: outer }

/-- Opens a block or closes some, as the width of a line says. -/
def indentTo (s : Scan) (width : Nat) : Except ParseError Scan :=
  if s.indents.headD 0 < width then
    .ok ({ s with indents := width :: s.indents }.emit .indent 1)
  else
    let closed := closeBlocks width s.indents s
    if closed.indents.headD 0 = width then .ok closed else closed.fail .unmatchedUnindent

/-- Reads the indentation of a line; a line without tokens is skipped whole. -/
def indentation (s : Scan) : Except ParseError Scan :=
  let (width, count, rest) := measure 0 0 s.rest
  let s := s.advance count rest
  match rest with
  | [] => .ok s
  | '\n' :: after => .ok (s.nextLine after)
  | '\r' :: '\n' :: after => .ok (s.nextLine after)
  | '#' :: _ =>
    let (comment, after) := spanComment rest
    match after with
    | '\n' :: after => .ok (s.nextLine after)
    | after => .ok (s.advance comment.length after)
  | _ => { s with atLineStart := false }.indentTo width

/-! ### Lexemes -/

/-- Ends a physical line; outside brackets also the logical line, if it is open. -/
def newline (s : Scan) (rest : List Char) : Scan :=
  let ended := if s.depth = 0 ∧ s.lineIsOpen then s.emit .newline s.column else s
  { ended.nextLine rest with atLineStart := s.depth = 0 }

/-- Whether a character belongs to the digits of a number. -/
def isDigitPart (c : Char) : Bool := c.isDigit || c == '_'

/-- The characters of a number, whether it is a double, and what follows it. -/
structure NumberSpan where
  text : List Char
  isFloat : Bool
  rest : List Char

/-- Adds digits to a number. -/
def NumberSpan.addDigits (n : NumberSpan) : NumberSpan :=
  { n with text := n.text ++ n.rest.takeWhile isDigitPart, rest := n.rest.dropWhile isDigitPart }

/-- Adds a point and the digits after it.  Without digits the point still belongs to
the number, unless a word follows it. -/
def NumberSpan.addFraction (n : NumberSpan) : NumberSpan :=
  match n.rest with
  | '.' :: after =>
    match after with
    | [] => ⟨n.text ++ ['.'], true, []⟩
    | c :: _ =>
      if c.isDigit then NumberSpan.addDigits ⟨n.text ++ ['.'], true, after⟩
      else if Text.isWordStart c then n
      else ⟨n.text ++ ['.'], true, after⟩
  | _ => n

/-- Adds an exponent, if a digit follows the letter and its sign. -/
def NumberSpan.addExponent (n : NumberSpan) : NumberSpan :=
  match n.rest with
  | e :: after =>
    if e == 'e' || e == 'E' then
      let sign := after.take 1 |>.filter fun c => c == '+' || c == '-'
      let power := after.drop sign.length
      if (power.head?.any Char.isDigit) then
        NumberSpan.addDigits ⟨n.text ++ e :: sign, true, power⟩
      else n
    else n
  | [] => n

/-- The number at the start of a list. -/
def spanNumber (cs : List Char) : NumberSpan :=
  (NumberSpan.addDigits ⟨[], false, cs⟩).addFraction.addExponent

/-- The value of a number's characters. -/
def numberKind (n : NumberSpan) : Except Cause TokenKind :=
  let text := n.text.filter (· != '_')
  if n.isFloat then
    match Number.readUnsigned text with
    | none => .error .invalidFloat
    | some value => if value.isFinite then .ok (.float value) else .error .floatOutOfRange
  else
    match Checked.word? (Number.digitsValue text) with
    | none => .error .integerTooLarge
    | some value => .ok (.int value)

/-- Reads a number. -/
def number (s : Scan) : Except ParseError Scan :=
  let n := spanNumber s.rest
  let after := s.advance n.text.length n.rest
  if n.rest.head?.any Text.isWordPart then after.fail .invalidNumber
  else
    match numberKind n with
    | .error cause => s.fail cause
    | .ok kind => .ok (after.emit kind s.column)

/-- Reads an identifier or a keyword. -/
def word (s : Scan) : Scan :=
  let cs := s.rest.takeWhile Text.isWordPart
  let text := String.ofList cs
  let kind := match Symbol.keyword? text with
    | some keyword => TokenKind.symbol keyword
    | none => TokenKind.name text
  (s.advance cs.length (s.rest.dropWhile Text.isWordPart)).emit kind s.column

/-- The character that an escape stands for. -/
def unescape? : Char → Option Char
  | 'n' => some '\n'
  | 't' => some '\t'
  | 'r' => some '\r'
  | '0' => some '\x00'
  | c => if c == '\\' || c == '\'' || c == '"' then some c else none

/-- Reads the characters of a string up to the closing quote.  The characters before
are given reversed, with the number of characters they were written with. -/
def stringAfter (s : Scan) (quote : Char) :
    List Char → Nat → List Char → Except ParseError (String × Scan)
  | _, count, [] => (s.advance count []).fail .unterminatedString
  | found, count, c :: rest =>
    if c == '\n' then (s.advance count (c :: rest)).fail .unterminatedString
    else if c == quote then .ok (String.ofList found.reverse, s.advance (count + 1) rest)
    else if c == '\\' then
      match rest with
      | [] => (s.advance count (c :: rest)).fail .unsupportedEscape
      | e :: after =>
        match unescape? e with
        | none => (s.advance count (c :: rest)).fail .unsupportedEscape
        | some escaped => stringAfter s quote (escaped :: found) (count + 2) after
    else stringAfter s quote (c :: found) (count + 1) rest

/-- Reads a string that starts with the given quote. -/
def string (s : Scan) (quote : Char) (rest : List Char) : Except ParseError Scan :=
  if [quote, quote].isPrefixOf rest then s.fail .tripleQuotes
  else
    match stringAfter s quote [] 1 rest with
    | .error e => .error e
    | .ok (value, after) => .ok (after.emit (.str value) s.column)

/-- The number of open brackets after a symbol. -/
def depthAfter (depth : Nat) : Symbol → Nat
  | .leftParen | .leftBracket | .leftBrace => depth + 1
  | .rightParen | .rightBracket | .rightBrace => depth - 1
  | _ => depth

/-- Reads an operator; `c` is the next character. -/
def operator (s : Scan) (c : Char) : Except ParseError Scan :=
  match Symbol.spelledOperators.find? fun op => op.1.isPrefixOf s.rest with
  | none => s.fail (.unexpectedCharacter c)
  | some (spelling, op) =>
    let count := spelling.length
    let after := s.advance count (s.rest.drop count)
    .ok ({ after with depth := depthAfter s.depth op }.emit (.symbol op) s.column)

/-- Reads what starts with the character `c`, the first of the characters left. -/
def lexeme (s : Scan) (c : Char) (rest : List Char) : Except ParseError Scan :=
  if c == '\n' then .ok (s.newline rest)
  else if c == '\r' || c == ' ' || c == '\t' || c == '\x0c' then .ok (s.advance 1 rest)
  else if c == '#' then
    let (comment, after) := spanComment s.rest
    .ok (s.advance comment.length after)
  else if c == '\\' && rest.head? == some '\n' then .ok (s.nextLine rest.tail)
  else if c.isDigit || (c == '.' && rest.head?.any Char.isDigit) then s.number
  else if Text.isWordStart c then .ok s.word
  else if c == '"' || c == '\'' then s.string c rest
  else s.operator c

/-- One lexeme further; at the start of a line its indentation comes first. -/
def step (s : Scan) : Except ParseError Scan :=
  if s.atLineStart then s.indentation
  else
    match s.rest with
    | [] => .ok s
    | c :: rest => s.lexeme c rest

/-- Goes on for at most `count` steps. -/
def run : Nat → Scan → Except ParseError Scan
  | 0, s => .ok s
  | count + 1, s =>
    match s.rest with
    | [] => .ok s
    | _ :: _ =>
      match s.step with
      | .error e => .error e
      | .ok next => run count next

/-- The tokens in order, with the last line and all blocks ended. -/
def finish (s : Scan) : List Token :=
  let ended := match s.tokens with
    | [] => s
    | ⟨kind, _, _⟩ :: _ =>
      match kind with
      | .newline | .dedent => s
      | _ => s.emit .newline s.column
  let closed := closeBlocks 0 ended.indents ended
  (closed.emit .endOfInput closed.column).tokens.reverse

end Scan

/-- The tokens of a text. -/
def tokenize (text : String) : Except ParseError (List Token) :=
  let cs := text.toList
  match Scan.run (2 * cs.length) { rest := cs } with
  | .error e => .error e
  | .ok s => .ok s.finish

end ProgramBreeding.Source

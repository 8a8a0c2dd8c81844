import ProgramBreeding.Json.Token

/-!
# Skipping values

A value that nobody asks for is skipped: it must have the form of a value, but what it
stands for does not matter.  So a number may be out of the range of doubles, and the
UTF-16 units of a string need not make characters.

## Main definitions

* `Json.Pending` — what is still to be skipped.
* `Json.skipStep` — skips a little of it.
* `Json.skipValue` — skips a whole value.

## Design notes

The brackets that are open stand in a list, so values may be nested without a limit.
Every step consumes a character, and the number of characters bounds the steps.
-/

namespace ProgramBreeding.Json

/-! ### Numbers and strings -/

/-- Skips a number, after its sign. -/
def skipNumber : Reader Unit := do
  discard wholeDigits
  discard fractionDigits
  discard exponent

/-- Skips an escape, after its backslash. -/
def skipEscape : Reader Unit := do
  match ← take with
  | 'u' => discard takeUnit
  | c => guard (letterEscape? c).isSome

/-- Skips a string after its opening quote, if it has at most the given number of
characters. -/
def skipString : Nat → Reader Unit
  | 0 => failure
  | count + 1 => do
    let c ← take
    if c == '"' then return ()
    else if c == '\\' then
      skipEscape
      skipString count
    else
      guard (32 ≤ c.toNat)
      skipString count

/-- Skips a value without brackets that starts with the given character. -/
def skipScalar (bound : Nat) : Char → Reader Unit
  | 'n' => takeAll ['u', 'l', 'l']
  | 't' => takeAll ['r', 'u', 'e']
  | 'f' => takeAll ['a', 'l', 's', 'e']
  | '"' => skipString bound
  | '-' => skipNumber
  | c => if c.isDigit then fun rest => skipNumber (c :: rest) else failure

/-! ### Brackets -/

/-- The brackets around items and around fields. -/
inductive Bracket where
  | square
  | curly
  deriving DecidableEq, Repr

namespace Bracket

/-- The bracket that a character opens. -/
def opened? : Char → Option Bracket
  | '[' => some .square
  | '{' => some .curly
  | _ => none

/-- The character that closes a bracket. -/
def closing : Bracket → Char
  | .square => ']'
  | .curly => '}'

/-- Skips what stands before a value in a bracket: the name of a field, and nothing
before an item. -/
def skipName (bound : Nat) : Bracket → Reader Unit
  | .square => return ()
  | .curly => do
    takeAll ['"']
    skipString bound
    skipSpace
    takeAll [':']
    skipSpace

end Bracket

/-! ### Values -/

/-- What is still to be skipped.  The brackets are those that are open, the innermost
first. -/
inductive Pending where
  /-- A value, and what follows it in the brackets. -/
  | value (brackets : List Bracket)
  /-- What follows a value in the brackets. -/
  | rest (brackets : List Bracket)

/-- Skips the start of what is pending. -/
def skipStep (bound : Nat) : Pending → Reader Pending
  | .rest [] => return .rest []
  | .rest (bracket :: brackets) => do
    skipSpace
    let c ← take
    if c == bracket.closing then return .rest brackets
    guard (c == ',')
    skipSpace
    bracket.skipName bound
    return .value (bracket :: brackets)
  | .value brackets => do
    let c ← take
    match Bracket.opened? c with
    | none =>
      skipScalar bound c
      return .rest brackets
    | some bracket =>
      skipSpace
      if (← peek?) == some bracket.closing then
        discard take
        return .rest brackets
      bracket.skipName bound
      return .value (bracket :: brackets)

/-- Skips all that is pending, in at most the given number of steps. -/
def skipPending (bound : Nat) : Nat → Pending → Reader Unit
  | _, .rest [] => return ()
  | 0, _ => failure
  | count + 1, pending => do
    let pending ← skipStep bound pending
    skipPending bound count pending

/-- Skips a value; `bound` is the number of characters. -/
def skipValue (bound : Nat) : Reader Unit := skipPending bound bound (.value [])

end ProgramBreeding.Json

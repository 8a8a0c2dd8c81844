import ProgramBreeding.Json.Basic
import ProgramBreeding.Number.Numeral

/-!
# The parts of JSON texts

## Main definitions

* `Json.Reader` — functions that consume characters.
* `Json.scaled` — the value of a numeral.
* `Json.number` and `Json.takeString` — numbers and strings.

## Design notes

A numeral with a point or an exponent keeps the digits that fit in an unsigned 64-bit
word and is scaled by a power of ten in one operation on doubles, so its last place may
differ from the nearest double.
-/

namespace ProgramBreeding.Json

/-- Functions that consume characters; none is a malformed text. -/
abbrev Reader := StateT (List Char) Option

/-- The next character, if there is one. -/
def peek? : Reader (Option Char) := fun cs => some (cs.head?, cs)

/-- Consumes a character. -/
def take : Reader Char
  | [] => none
  | c :: rest => some (c, rest)

/-- Consumes the given characters. -/
def takeAll : List Char → Reader Unit
  | [] => pure ()
  | c :: rest => do
    guard ((← take) == c)
    takeAll rest

/-- Whether a character may stand between two tokens. -/
def isSpace (c : Char) : Bool := c == ' ' || c == '\n' || c == '\t' || c == '\r'

/-- Consumes the characters between two tokens. -/
def skipSpace : Reader Unit := fun cs => some ((), cs.dropWhile isSpace)

/-- Consumes the digits that come next. -/
def takeDigits : Reader (List Char) := fun cs =>
  some (cs.takeWhile Char.isDigit, cs.dropWhile Char.isDigit)

/-! ### Numbers -/

/-- The greatest unsigned 64-bit word. -/
def greatestWord : Nat := UInt64.size - 1

/-- The digits of a significand that fit in an unsigned word, after those already in
it: the significand and the number of digits left out.  Once a digit does not fit, none
of the following ones is taken. -/
def fillWord (significand : Nat) : List Char → Nat × Nat
  | [] => (significand, 0)
  | d :: rest =>
    let extended := 10 * significand + (d.toNat - 48)
    if extended ≤ greatestWord then fillWord extended rest else (significand, rest.length + 1)

/-- A power of ten between 1 and 1e308 as a double. -/
def powerOfTen (n : Nat) : Double := Double.ofNat (Nat.pow 10 n)

/-- Divides by 1e308 until the exponent has at most 308 places, at most `count` times. -/
def scaleDown : Nat → Double → Int → Double × Int
  | 0, f, exponent => (f, exponent)
  | count + 1, f, exponent =>
    if exponent < -308 && !f.isZero then scaleDown count (f / powerOfTen 308) (exponent + 308)
    else (f, exponent)

/-- The value `significand * 10 ^ exponent` by one multiplication or division; none if
it is too great. -/
def scaled (significand : Nat) (exponent : Int) : Option Double :=
  let f := Double.ofNat significand
  if 308 < exponent then (if f.isZero then some f else none)
  else if 0 ≤ exponent then
    let product := f * powerOfTen exponent.toNat
    if product.isInfinite then none else some product
  else
    let (f, exponent) := scaleDown 4 f exponent
    if exponent < -308 then some f else some (f / powerOfTen (-exponent).toNat)

/-- The exponent of a numeral, if its letter comes next. -/
def exponent : Reader (Option Int) := do
  match ← peek? with
  | some 'e' | some 'E' =>
    discard take
    let negative ← (do
      match ← peek? with
      | some '-' =>
        discard take
        return true
      | some '+' =>
        discard take
        return false
      | _ => return false)
    let ds ← takeDigits
    guard !ds.isEmpty
    let value : Int := Number.digitsValue ds
    return some (if negative then -value else value)
  | _ => return none

/-- The digits of a whole number: a zero stands alone. -/
def wholeDigits : Reader (List Char) := do
  let ds ← takeDigits
  guard !ds.isEmpty
  guard (ds.length = 1 || ds.head? != some '0')
  return ds

/-- The digits after a point, if it comes next. -/
def fractionDigits : Reader (Option (List Char)) := do
  match ← peek? with
  | some '.' =>
    discard take
    let ds ← takeDigits
    guard !ds.isEmpty
    return some ds
  | _ => return none

/-- A double with a sign. -/
def signed (negative : Bool) (f : Double) : Json := .float (if negative then -f else f)

/-- A whole number: in the range of 64-bit words a whole value, beyond it a double.
Zero with a sign is a double, too. -/
def wholeNumber (negative : Bool) (significand left : Nat) : Option Json :=
  if left ≠ 0 then (scaled significand left).map (signed negative)
  else if !negative then some (.int significand)
  else if significand = 0 || 9223372036854775808 < significand then
    some (signed true (Double.ofNat significand))
  else some (.int (-(significand : Int)))

/-- A number, after its sign. -/
def number (negative : Bool) : Reader Json := do
  let whole ← wholeDigits
  let (significand, left) := fillWord 0 whole
  let fraction ← fractionDigits
  let power ← exponent
  match fraction, power with
  | none, none => wholeNumber negative significand left
  | _, _ =>
    let ds := fraction.getD []
    let (significand, dropped) := fillWord significand ds
    let places : Int := (left : Int) - (ds.length - dropped : Int)
    (scaled significand (places + power.getD 0)).map (signed negative)

/-! ### Strings -/

/-- The value of a hexadecimal digit. -/
def hexDigit? (c : Char) : Option Nat :=
  if c.isDigit then some (c.toNat - 48)
  else if 'a' ≤ c && c ≤ 'f' then some (c.toNat - 87)
  else if 'A' ≤ c && c ≤ 'F' then some (c.toNat - 55)
  else none

/-- Four hexadecimal digits. -/
def takeUnit : Reader Nat := do
  let a ← hexDigit? (← take)
  let b ← hexDigit? (← take)
  let c ← hexDigit? (← take)
  let d ← hexDigit? (← take)
  return ((a * 16 + b) * 16 + c) * 16 + d

/-- A character given by its UTF-16 units, the first of which starts here. -/
def takeUnicode : Reader Char := do
  let unit ← takeUnit
  if 0xD800 ≤ unit && unit < 0xDC00 then
    takeAll ['\\', 'u']
    let low ← takeUnit
    guard (0xDC00 ≤ low && low < 0xE000)
    return Char.ofNat (0x10000 + (unit - 0xD800) * 0x400 + (low - 0xDC00))
  else
    guard !(0xDC00 ≤ unit && unit < 0xE000)
    return Char.ofNat unit

/-- The character that a single letter stands for after a backslash. -/
def letterEscape? : Char → Option Char
  | '"' => some '"'
  | '\\' => some '\\'
  | '/' => some '/'
  | 'b' => some '\x08'
  | 'f' => some '\x0c'
  | 'n' => some '\n'
  | 'r' => some '\r'
  | 't' => some '\t'
  | _ => none

/-- The character of an escape, after its backslash. -/
def takeEscape : Reader Char := do
  match ← take with
  | 'u' => takeUnicode
  | c => letterEscape? c

/-- The characters of a string up to its closing quote, given those before, reversed. -/
def charactersAfter : Nat → List Char → Reader String
  | 0, _ => failure
  | count + 1, found => do
    let c ← take
    if c == '"' then return String.ofList found.reverse
    else if c == '\\' then
      let escaped ← takeEscape
      charactersAfter count (escaped :: found)
    else
      guard (32 ≤ c.toNat)
      charactersAfter count (c :: found)

/-- A string, after its opening quote; `bound` is the number of characters. -/
def takeString (bound : Nat) : Reader String := charactersAfter bound []

end ProgramBreeding.Json

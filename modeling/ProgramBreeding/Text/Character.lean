import ProgramBreeding.Text.Table.Alphabetic
import ProgramBreeding.Text.Table.Numeric
import ProgramBreeding.Text.Table.Extending
import ProgramBreeding.Text.Table.Unprintable

/-!
# Classes of characters

Which characters may stand in a word, which separate words, and how a character is
quoted in a message.

## Main definitions

* `isAlphabetic`, `isNumeric`, `isAlphanumeric` — the Unicode classes.
* `isWordStart`, `isWordPart` — the characters of an identifier.
* `isBlank` — the Unicode property White_Space.
* `quotedCharacter` — a character between single quotes, escaped if it could not be
  seen.
-/

namespace ProgramBreeding.Text

/-- Whether a character has the property Alphabetic. -/
def isAlphabetic (c : Char) : Bool :=
  if c.toNat < 128 then c.isAlpha else alphabeticRanges.contains c.toNat

/-- Whether a character belongs to a number category. -/
def isNumeric (c : Char) : Bool :=
  if c.toNat < 128 then c.isDigit else numericRanges.contains c.toNat

/-- Whether a character is alphabetic or numeric. -/
def isAlphanumeric (c : Char) : Bool := isAlphabetic c || isNumeric c

/-- Whether a word can start with a character. -/
def isWordStart (c : Char) : Bool := isAlphabetic c || c == '_'

/-- Whether a word can go on with a character. -/
def isWordPart (c : Char) : Bool := isAlphanumeric c || c == '_'

/-- The code points beyond ASCII with the property White_Space. -/
def blankRanges : CodeRanges := #[
  (0x85, 0x85), (0xA0, 0xA0), (0x1680, 0x1680), (0x2000, 0x200A), (0x2028, 0x2029),
  (0x202F, 0x202F), (0x205F, 0x205F), (0x3000, 0x3000)]

/-- Whether a character has the property White_Space. -/
def isBlank (c : Char) : Bool :=
  if c.toNat < 128 then c == ' ' || (9 ≤ c.toNat && c.toNat ≤ 13)
  else blankRanges.contains c.toNat

/-- Whether a character attaches to the one before it. -/
def isExtending (c : Char) : Bool := 128 ≤ c.toNat && extendingRanges.contains c.toNat

/-- Whether a character leaves a mark of its own; the space counts. -/
def isPrintable (c : Char) : Bool := c == ' ' || !unprintableRanges.contains c.toNat

/-- The lower-case hexadecimal digits of a number. -/
def hexadecimal (n : Nat) : String := String.ofList (Nat.toDigits 16 n)

/-- A character between single quotes; characters that cannot be seen on their own
are written by their code point. -/
def quotedCharacter (c : Char) : String :=
  let body :=
    if c == '\x00' then "\\0"
    else if c == '\t' then "\\t"
    else if c == '\n' then "\\n"
    else if c == '\r' then "\\r"
    else if c == '\'' then "\\'"
    else if c == '\\' then "\\\\"
    else if isExtending c || !isPrintable c then "\\u\x7b" ++ hexadecimal c.toNat ++ "\x7d"
    else c.toString
  "'" ++ body ++ "'"

end ProgramBreeding.Text

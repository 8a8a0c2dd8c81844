import ProgramBreeding.Json.Outline
import ProgramBreeding.Json.Skip

/-!
# Reading JSON

## Main definitions

* `Json.readUnder` — what an outline tells of the value of a text.
* `Json.read` — the value of a text, if it is well formed.

## Design notes

Arrays and objects that are kept may be nested 127 deep, so values are a recursion on the
number of levels left; the items of one array are a loop that is bounded by the number of
characters.  A field that its outline does not name is skipped and left out.
-/

namespace ProgramBreeding.Json

/-- The items of an array, given those before, reversed, and the outlines of those to
come. -/
def itemsAfter (value : Outline → Reader Json) :
    Nat → List Outline → List Json → Reader Json
  | 0, _, _ => failure
  | count + 1, outlines, items => do
    let item ← value (outlines.headD .whole)
    skipSpace
    match ← take with
    | ',' =>
      skipSpace
      itemsAfter value count outlines.tail (item :: items)
    | ']' => return .arr (item :: items).reverse
    | _ => failure

/-- A field, after its name, put before others if it is of interest. -/
def fieldBefore (bound : Nat) (value : Outline → Reader Json) (outline : Outline)
    (name : String) (fields : List (String × Json)) : Reader (List (String × Json)) := do
  match outline.field? name with
  | some inner => return (name, ← value inner) :: fields
  | none =>
    skipValue bound
    return fields

/-- The fields of an object, given those before, reversed. -/
def fieldsAfter (bound : Nat) (value : Outline → Reader Json) (outline : Outline) :
    Nat → List (String × Json) → Reader Json
  | 0, _ => failure
  | count + 1, fields => do
    takeAll ['"']
    let name ← takeString bound
    skipSpace
    takeAll [':']
    skipSpace
    let fields ← fieldBefore bound value outline name fields
    skipSpace
    match ← take with
    | ',' =>
      skipSpace
      fieldsAfter bound value outline count fields
    | '}' => return .obj fields.reverse
    | _ => failure

/-- What is of interest in a value without blanks around it, with a number of levels
left. -/
def value (bound : Nat) : Nat → Outline → Reader Json
  | 0, _ => failure
  | depth + 1, outline => do
    match ← take with
    | 'n' =>
      takeAll ['u', 'l', 'l']
      return .null
    | 't' =>
      takeAll ['r', 'u', 'e']
      return .bool true
    | 'f' =>
      takeAll ['a', 'l', 's', 'e']
      return .bool false
    | '"' => .str <$> takeString bound
    | '-' => number true
    | '[' =>
      guard (depth ≠ 0)
      skipSpace
      match ← peek? with
      | some ']' =>
        discard take
        return .arr []
      | _ => itemsAfter (value bound depth) bound outline.items []
    | '{' =>
      guard (depth ≠ 0)
      skipSpace
      match ← peek? with
      | some '}' =>
        discard take
        return .obj []
      | _ => fieldsAfter bound (value bound depth) outline bound []
    | c =>
      if c.isDigit then fun rest => number false (c :: rest)
      else failure

/-- What is of interest in the value of a text, if the text is well formed. -/
def readUnder (outline : Outline) (text : String) : Option Json := do
  let cs := text.toList
  let ((), cs) ← skipSpace cs
  let (found, cs) ← value cs.length 128 outline cs
  let ((), cs) ← skipSpace cs
  guard cs.isEmpty
  return found

/-- The value of a text, if the text is well formed. -/
def read (text : String) : Option Json := readUnder .whole text

end ProgramBreeding.Json

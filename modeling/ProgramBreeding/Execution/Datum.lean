import ProgramBreeding.Execution.Compare
import ProgramBreeding.Json.Basic
import ProgramBreeding.Number.Checked
import ProgramBreeding.Number.Layout

/-!
# Plain data and the text of values

## Main definitions

* `quoteText` — a text between quotes, as programs print it inside a list.
* `Value.text`, `Value.plainText` — the text of a value, inside and outside a list.
* `Datum.text` — the text of plain data.
* `Value.ofDatum`, `Value.toDatum` — plain data crossing the boundary of a run.
* `Datum.ofJson?`, `Datum.toJson` — plain data as JSON.

## Design notes

A text is put between single quotes unless it holds one and no double quote.
Values leave a run as plain data only if nothing lies more than 64 lists deep;
printed text has an ellipsis for the lists below.
-/

namespace ProgramBreeding

/-- A character of a text between the given quotes. -/
def escapeFor (quote c : Char) : String :=
  if c == '\\' then "\\\\"
  else if c == '\n' then "\\n"
  else if c == '\t' then "\\t"
  else if c == '\r' then "\\r"
  else if c == quote then String.ofList ['\\', c]
  else c.toString

/-- The quotes for a text. -/
def quoteFor (text : String) : Char :=
  if text.toList.contains '\'' && !text.toList.contains '"' then '"' else '\''

/-- A text between quotes. -/
def quoteText (text : String) : String :=
  let quote := quoteFor text
  quote.toString ++ String.join (text.toList.map (escapeFor quote)) ++ quote.toString

/-- The text of a truth value. -/
def boolText (b : Bool) : String := if b then "True" else "False"

/-- The text of a whole number. -/
def wordText (i : Int64) : String := toString i.toInt

/-- Texts between brackets, separated by commas. -/
def listText (items : List String) : String := "[" ++ ", ".intercalate items ++ "]"

/-- The text of a value that is no list, and an ellipsis for a list. -/
def Value.leafText : Value → String
  | .none => "None"
  | .bool b => boolText b
  | .int i => wordText i
  | .float x => Number.valueLayout.write x
  | .str s => quoteText s
  | .list _ => "[...]"
  | .function _ => "<function>"
  | .builtin b => "<built-in function " ++ b.name ++ ">"

/-- The text of a value with a number of levels of lists left. -/
def Value.textWithin (heap : Heap) : Nat → Value → String
  | 0, v => v.leafText
  | levels + 1, v =>
    match v with
    | .list ref => listText ((heap.items ref).toList.map (Value.textWithin heap levels))
    | v => v.leafText

/-- The text of a value. -/
def Value.text (heap : Heap) (v : Value) : String := v.textWithin heap maxLevels

/-- The text of a value outside a list: a text stands for itself. -/
def Value.plainText (heap : Heap) : Value → String
  | .str s => s
  | v => v.text heap

mutual

/-- The text of plain data. -/
def Datum.text : Datum → String
  | .none => "None"
  | .bool b => boolText b
  | .int i => wordText i
  | .float x => Number.valueLayout.write x
  | .str s => quoteText s
  | .list items => listText (Datum.texts items)

/-- The texts of plain data. -/
def Datum.texts : List Datum → List String
  | [] => []
  | d :: rest => d.text :: Datum.texts rest

end

/-! ### Crossing the boundary -/

mutual

/-- Plain data as a value; every list is new. -/
def Value.ofDatum : Datum → Exec Value
  | .none => pure .none
  | .bool b => pure (.bool b)
  | .int i => pure (.int i)
  | .float x => pure (.float x)
  | .str s => pure (.str s)
  | .list items => do newList (← Value.ofData items).toArray

/-- Plain data as values. -/
def Value.ofData : List Datum → Exec (List Value)
  | [] => pure []
  | d :: rest => do return (← Value.ofDatum d) :: (← Value.ofData rest)

end

/-- A value as plain data, with a number of levels left. -/
def Value.toDatumWithin (heap : Heap) : Nat → Value → Except Fault Datum
  | 0, _ => .error .nestedTooDeeply
  | levels + 1, v =>
    match v with
    | .none => .ok .none
    | .bool b => .ok (.bool b)
    | .int i => .ok (.int i)
    | .float x => .ok (.float x)
    | .str s => .ok (.str s)
    | .list ref =>
      ((heap.items ref).toList.mapM (Value.toDatumWithin heap levels)).map .list
    | .function _ | .builtin _ => .error .functionsStay

/-- A value as plain data. -/
def Value.toDatum (heap : Heap) (v : Value) : Except Fault Datum :=
  v.toDatumWithin heap maxLevels

/-! ### Equality -/

mutual

/-- Equality of plain data: doubles are compared as numbers, and data of different
kinds are never equal. -/
def Datum.equal : Datum → Datum → Bool
  | .none, .none => true
  | .bool a, .bool b => a == b
  | .int a, .int b => a == b
  | .float a, .float b => a.equals b
  | .str a, .str b => a == b
  | .list as, .list bs => Datum.allEqual as bs
  | _, _ => false

/-- Equality of lists of plain data. -/
def Datum.allEqual : List Datum → List Datum → Bool
  | [], [] => true
  | a :: as, b :: bs => Datum.equal a b && Datum.allEqual as bs
  | _, _ => false

end

/-! ### JSON -/

/-- The datum of a whole number; beyond the 64-bit range it is a double. -/
def Datum.ofInt (n : Int) : Datum :=
  match Checked.word? n with
  | .some i => .int i
  | .none => .float (.ofInt n)

mutual

/-- The plain data that a JSON value denotes; an object denotes none. -/
def Datum.ofJson? : Json → Option Datum
  | .null => some .none
  | .bool b => some (.bool b)
  | .int n => some (Datum.ofInt n)
  | .float x => some (.float x)
  | .str s => some (.str s)
  | .arr items => (Datum.ofItems? items).map .list
  | .obj _ => Option.none

/-- The plain data that JSON values denote, if all of them denote some. -/
def Datum.ofItems? : List Json → Option (List Datum)
  | [] => some []
  | item :: rest => do
    let d ← Datum.ofJson? item
    let ds ← Datum.ofItems? rest
    return d :: ds

end

mutual

/-- Plain data as JSON. -/
def Datum.toJson : Datum → Json
  | .none => .null
  | .bool b => .bool b
  | .int i => .int i.toInt
  | .float x => .float x
  | .str s => .str s
  | .list items => .arr (Datum.toItems items)

/-- Plain data as JSON values. -/
def Datum.toItems : List Datum → List Json
  | [] => []
  | d :: rest => d.toJson :: Datum.toItems rest

end

end ProgramBreeding

import ProgramBreeding.Json.Basic
import ProgramBreeding.Number.Layout
import ProgramBreeding.Text.Character

/-!
# Writing JSON

## Main definitions

* `Json.compact` — the text of a value on one line, without blanks.
* `Json.pretty` — the text of a value over several lines, two blanks a level.
-/

namespace ProgramBreeding.Json

/-- A control character by its code point, with four hexadecimal digits. -/
def unicodeEscape (c : Char) : String :=
  let ds := Text.hexadecimal c.toNat
  "\\u" ++ Number.zeros (4 - ds.length) ++ ds

/-- A character of a string. -/
def escape (c : Char) : String :=
  if c == '"' then "\\\""
  else if c == '\\' then "\\\\"
  else if c == '\x08' then "\\b"
  else if c == '\x0c' then "\\f"
  else if c == '\n' then "\\n"
  else if c == '\r' then "\\r"
  else if c == '\t' then "\\t"
  else if c.toNat < 32 then unicodeEscape c
  else c.toString

/-- A string with its quotes. -/
def quoted (text : String) : String := "\"" ++ String.join (text.toList.map escape) ++ "\""

mutual

/-- The text of a value on one line. -/
def compact : Json → String
  | .null => "null"
  | .bool true => "true"
  | .bool false => "false"
  | .int n => toString n
  | .float x => Number.dataLayout.write x
  | .str s => quoted s
  | .arr items => "[" ++ ",".intercalate (compactItems items) ++ "]"
  | .obj fields => "\x7b" ++ ",".intercalate (compactFields fields) ++ "\x7d"

/-- The texts of the items of an array. -/
def compactItems : List Json → List String
  | [] => []
  | item :: rest => item.compact :: compactItems rest

/-- The texts of the fields of an object. -/
def compactFields : List (String × Json) → List String
  | [] => []
  | (name, item) :: rest => (quoted name ++ ":" ++ item.compact) :: compactFields rest

end

/-- A line break and the blanks of a level. -/
def lineBreak (level : Nat) : String := "\n" ++ String.ofList (List.replicate (2 * level) ' ')

/-- Texts on lines of their own between two brackets; nothing at all stays on one
line. -/
def bracketed (left right : String) (level : Nat) (texts : List String) : String :=
  if texts.isEmpty then left ++ right
  else
    left ++ lineBreak (level + 1) ++ ("," ++ lineBreak (level + 1)).intercalate texts ++
      lineBreak level ++ right

mutual

/-- The text of a value that starts at a level, over several lines. -/
def prettyAt (level : Nat) : Json → String
  | .arr items => bracketed "[" "]" level (prettyItems (level + 1) items)
  | .obj fields => bracketed "\x7b" "\x7d" level (prettyFields (level + 1) fields)
  | .null => compact .null
  | .bool b => compact (.bool b)
  | .int n => compact (.int n)
  | .float x => compact (.float x)
  | .str s => compact (.str s)

/-- The texts of the items of an array. -/
def prettyItems (level : Nat) : List Json → List String
  | [] => []
  | item :: rest => item.prettyAt level :: prettyItems level rest

/-- The texts of the fields of an object. -/
def prettyFields (level : Nat) : List (String × Json) → List String
  | [] => []
  | (name, item) :: rest => (quoted name ++ ": " ++ item.prettyAt level) :: prettyFields level rest

end

/-- The text of a value over several lines. -/
def pretty (json : Json) : String := json.prettyAt 0

end ProgramBreeding.Json

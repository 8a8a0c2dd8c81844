/-!
# Outlines

An outline tells what is of interest in a JSON value before the value is read.

## Main definitions

* `Json.Outline` — what is of interest.
* `Json.Outline.field?` — what is of interest in a field of an object.
* `Json.Outline.items` — what is of interest in the items of an array.
-/

namespace ProgramBreeding.Json

/-- What is of interest in a value. -/
inductive Outline where
  /-- Everything. -/
  | whole
  /-- The fields of a record, in their order, each with what is of interest in it. -/
  | record (fields : List (String × Outline))

namespace Outline

/-- The fields with the given names, and everything in them. -/
def flat (names : List String) : Outline := .record (names.map fun name => (name, .whole))

/-- The names of the fields of a record. -/
def names : Outline → List String
  | .whole => []
  | .record fields => fields.map Prod.fst

@[simp] theorem names_flat (fields : List String) : (flat fields).names = fields := by
  simp [flat, Outline.names, Function.comp_def]

/-- What is of interest in a field of an object, if the field itself is. -/
def field? (name : String) : Outline → Option Outline
  | .whole => some .whole
  | .record fields => fields.lookup name

/-- What is of interest in the first items of an array, which may stand for the fields of
a record; in further items it is everything. -/
def items : Outline → List Outline
  | .whole => []
  | .record fields => fields.map Prod.snd

end Outline

end ProgramBreeding.Json

import ProgramBreeding.Number.Double

/-!
# JSON values

Objects keep their fields in the order of the text, and a name that is given twice
stays there twice.  Whole numbers are kept apart from doubles.
-/

namespace ProgramBreeding

/-- JSON values. -/
inductive Json where
  | null
  | bool (value : Bool)
  | int (value : Int)
  | float (value : Double)
  | str (value : String)
  | arr (items : List Json)
  | obj (fields : List (String × Json))
  deriving Inhabited

/-- The first value of a field of an object. -/
def Json.field? (json : Json) (name : String) : Option Json :=
  match json with
  | .obj fields => fields.lookup name
  | _ => none

end ProgramBreeding

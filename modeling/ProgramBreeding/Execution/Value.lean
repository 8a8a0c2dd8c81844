import ProgramBreeding.Tree.Labelled

/-!
# Values

What the programs of the object language compute with.

## Main definitions

* `Value` — the values; a list is a reference into a `Heap`.
* `Kind` — the kinds of values, with the names that messages use.
* `Builtin` — the functions that every program starts with.
* `Datum` — plain data, which crosses the boundary of a run.
* `Value.isTruthy`, `Value.number?`, `Value.int?` — views of a value.

## Design notes

Lists are shared and can change, so a value holds only a reference and two values are
the same list iff their references are equal.  A function is known by the label of its
definition.  Whole numbers are 64-bit words, a truth value counts as one of them.
-/

namespace ProgramBreeding

/-- Functions that every program starts with. -/
inductive Builtin where
  | len | sum | range | min | max | abs | list | sorted | any | all | print | int | float | str
  | bool
  deriving DecidableEq, Repr

/-- The name of a built-in function. -/
def Builtin.name : Builtin → String
  | .len => "len"
  | .sum => "sum"
  | .range => "range"
  | .min => "min"
  | .max => "max"
  | .abs => "abs"
  | .list => "list"
  | .sorted => "sorted"
  | .any => "any"
  | .all => "all"
  | .print => "print"
  | .int => "int"
  | .float => "float"
  | .str => "str"
  | .bool => "bool"

/-- All built-in functions. -/
def Builtin.every : List Builtin :=
  [.len, .sum, .range, .min, .max, .abs, .list, .sorted, .any, .all, .print, .int, .float, .str,
    .bool]

/-- The built-in function with a name. -/
def Builtin.ofName? (name : String) : Option Builtin :=
  Builtin.every.find? fun builtin => builtin.name == name

/-- A reference to a list. -/
abbrev Ref := Nat

/-- Values. -/
inductive Value where
  | none
  | bool (value : Bool)
  | int (value : Int64)
  | float (value : Double)
  | str (value : String)
  | list (ref : Ref)
  /-- The function whose definition has the label. -/
  | function (label : Label)
  | builtin (builtin : Builtin)
  deriving Inhabited

/-- Kinds of values. -/
inductive Kind where
  | none
  | bool
  | int
  | float
  | str
  | list
  | function
  deriving DecidableEq, Repr

/-- The name of a kind in a message. -/
def Kind.name : Kind → String
  | .none => "NoneType"
  | .bool => "bool"
  | .int => "int"
  | .float => "float"
  | .str => "str"
  | .list => "list"
  | .function => "function"

/-- The kind of a value. -/
def Value.kind : Value → Kind
  | .none => .none
  | .bool _ => .bool
  | .int _ => .int
  | .float _ => .float
  | .str _ => .str
  | .list _ => .list
  | .function _ | .builtin _ => .function

/-- The items of every list that was ever made, by reference. -/
abbrev Heap := Array (Array Value)

/-- The items of a list. -/
def Heap.items (heap : Heap) (ref : Ref) : Array Value := heap.getD ref #[]

/-- Plain data. -/
inductive Datum where
  | none
  | bool (value : Bool)
  | int (value : Int64)
  | float (value : Double)
  | str (value : String)
  | list (items : List Datum)
  deriving Inhabited

/-- Numbers. -/
inductive Num where
  | int (value : Int64)
  | float (value : Double)

/-- A number as a double. -/
def Num.toDouble : Num → Double
  | .int i => .ofInt i.toInt
  | .float x => x

/-- The whole number that a truth value counts as. -/
def wordOfBool (b : Bool) : Int64 := if b then 1 else 0

namespace Value

/-- The value of a constant. -/
def ofLiteral : Literal → Value
  | .none => .none
  | .bool b => .bool b
  | .int i => .int i
  | .float x => .float x
  | .str s => .str s

/-- Whether a value counts as true in a condition. -/
def isTruthy (heap : Heap) : Value → Bool
  | .none => false
  | .bool b => b
  | .int i => i != 0
  | .float x => !x.isZero
  | .str s => !s.isEmpty
  | .list ref => !(heap.items ref).isEmpty
  | .function _ | .builtin _ => true

/-- The number that a value is. -/
def number? : Value → Option Num
  | .bool b => some (.int (wordOfBool b))
  | .int i => some (.int i)
  | .float x => some (.float x)
  | _ => Option.none

/-- The whole number that a value is. -/
def int? : Value → Option Int64
  | .bool b => some (wordOfBool b)
  | .int i => some i
  | _ => Option.none

end Value

end ProgramBreeding

import ProgramBreeding.Execution.Arithmetic
import ProgramBreeding.Execution.Datum
import ProgramBreeding.Number.Numeral

/-!
# Built-in functions

Every built-in function spends one unit of fuel and a quarter of the elements that it
touches, so no single call can hide work without bound.

## Main definitions

* `requireCount` — the number of arguments.
* `arithmeticRange` — the members of an arithmetic progression.
* `callBuiltin` — the call of a built-in function.
-/

namespace ProgramBreeding

/-- Fails unless the number of arguments lies between two bounds. -/
def requireCount (name : String) (args : List Value) (least greatest : Nat) : Exec Unit :=
  if least ≤ args.length ∧ args.length ≤ greatest then pure ()
  else if least = greatest then raise (.argumentCount name least args.length)
  else raise (.argumentRange name least greatest args.length)

/-- A count as a value. -/
def countValue (n : Nat) : Exec Value :=
  match Checked.word? n with
  | some i => pure (.int i)
  | none => raise .integerOverflow

/-! ### Ranges -/

/-- The number of integers `start + k * step` with `0 ≤ k` before `stop`. -/
def rangeLength (start stop step : Int) : Nat :=
  let span := if 0 < step then stop - start else start - stop
  if span ≤ 0 then 0 else (span.toNat - 1) / step.natAbs + 1

/-- The members of an arithmetic progression; each of them fits in a word if the last
one does. -/
def arithmeticRange (start step : Int) (length : Nat) : Array Value :=
  ((List.range length).map fun (k : Nat) => Value.int (Int64.ofInt (start + k * step))).toArray

/-- The bounds and the step that the arguments of a range denote. -/
def rangeBounds : List Int64 → Int × Int × Int
  | [stop] => (0, stop.toInt, 1)
  | [start, stop] => (start.toInt, stop.toInt, 1)
  | start :: stop :: step :: _ => (start.toInt, stop.toInt, step.toInt)
  | [] => (0, 0, 1)

/-- The whole numbers that the arguments of a range are. -/
def rangeArguments : List Value → Except Fault (List Int64)
  | [] => .ok []
  | v :: rest =>
    match v.int? with
    | none => .error (.notAnInteger v.kind)
    | some i => (rangeArguments rest).map (i :: ·)

/-- The call of `range`. -/
def callRange (budget : Budget) (args : List Value) : Exec Value := do
  requireCount "range" args 1 3
  let (start, stop, step) := rangeBounds (← ofExcept (rangeArguments args))
  if step = 0 then raise .zeroStep
  let length := rangeLength start stop step
  charge budget (cost length)
  if maxSequence < length then raise .rangeTooLarge
  newList (arithmeticRange start step length)

/-! ### Reductions -/

/-- Adds values to a total, one after the other. -/
def addAll : Value → List Value → Exec Value
  | total, [] => pure total
  | total, v :: rest => do addAll (← binaryOp .add total v) rest

/-- The first of the greatest or least values, where `wanted` is the order of a better
value and the best one so far. -/
def bestOf (wanted : Ordering) : Value → List Value → Exec Value
  | best, [] => pure best
  | best, v :: rest => do
    let order ← ofExcept (orderFor .lt (← get).heap v best)
    bestOf wanted (if order == wanted then v else best) rest

/-- The best of some values, if there are any. -/
def bestOfAll (budget : Budget) (name : String) (wanted : Ordering) (items : List Value) :
    Exec Value := do
  charge budget (cost items.length)
  match items with
  | [] => raise (.emptySequence name)
  | first :: rest => bestOf wanted first rest

/-- The call of `min` or `max`, on the items of one argument or on several. -/
def callExtremum (budget : Budget) (name : String) (wanted : Ordering) (args : List Value) :
    Exec Value :=
  match args with
  | [] => raise (.missingArguments name)
  | [v] => do bestOfAll budget name wanted (← iterate v).toList
  | args => bestOfAll budget name wanted args

/-! ### Conversions -/

/-- The whole part of a double, if it is finite and surely fits in a word. -/
def truncate? (x : Double) : Option Int64 :=
  if x.isFinite && x.abs < 9.2e18 then Checked.word? x.truncate else none

/-- A value as a whole number. -/
def toInteger : Value → Exec Value
  | .float x =>
    match truncate? x with
    | some i => pure (.int i)
    | none => raise .floatToInteger
  | .str s =>
    match Number.readInteger (String.ofList ((Text.trim s).toList.filter (· != '_'))) with
    | some i => pure (.int i)
    | none => raise (.integerText (quoteText s))
  | v =>
    match v.int? with
    | some i => pure (.int i)
    | none => raise (.argumentKind "int" v.kind)

/-- A value as a double. -/
def toDouble : Value → Exec Value
  | .float x => pure (.float x)
  | .str s =>
    match (Number.readFloat (Text.trim s)).filter Double.isFinite with
    | some x => pure (.float x)
    | none => raise .floatText
  | v =>
    match v.int? with
    | some i => pure (.float (.ofInt i.toInt))
    | none => raise (.argumentKind "float" v.kind)

/-- The absolute value of a number. -/
def absolute : Value → Exec Value
  | .float x => pure (.float x.abs)
  | v =>
    match v.int? with
    | none => raise (.argumentKind "abs" v.kind)
    | some i =>
      match Checked.abs i with
      | some result => pure (.int result)
      | none => raise .integerOverflow

/-- The length of a sequence. -/
def lengthOf : Value → Exec Value
  | .list ref => do countValue (← itemsOf ref).size
  | .str s => countValue s.length
  | v => raise (.noLength v.kind)

/-! ### Calls -/

/-- The items of the only argument, after their cost has been spent. -/
def soleItems (budget : Budget) (name : String) (args : List Value) : Exec (Array Value) := do
  requireCount name args 1 1
  let items ← iterate (args.headD .none)
  charge budget (cost items.size)
  return items

/-- The call of a built-in function. -/
def callBuiltin (budget : Budget) (builtin : Builtin) (args : List Value) : Exec Value :=
  match builtin with
  | .len => do
    requireCount "len" args 1 1
    charge budget 1
    lengthOf (args.headD .none)
  | .sum => do
    requireCount "sum" args 1 2
    let items ← iterate (args.headD .none)
    charge budget (cost items.size)
    addAll (args.getD 1 (.int 0)) items.toList
  | .range => callRange budget args
  | .min => callExtremum budget "min" .lt args
  | .max => callExtremum budget "max" .gt args
  | .abs => do
    requireCount "abs" args 1 1
    charge budget 1
    absolute (args.headD .none)
  | .list => do
    requireCount "list" args 0 1
    let items ← match args with
      | [] => pure #[]
      | v :: _ => iterate v
    charge budget (cost items.size)
    newList items
  | .sorted => do
    let items ← soleItems budget "sorted" args
    newList (← ofExcept (sortValues (← get).heap items.toList)).toArray
  | .any => do
    let items ← soleItems budget "any" args
    let heap := (← get).heap
    return .bool (items.any fun v => v.isTruthy heap)
  | .all => do
    let items ← soleItems budget "all" args
    let heap := (← get).heap
    return .bool (items.all fun v => v.isTruthy heap)
  | .print => do
    let heap := (← get).heap
    let line := " ".intercalate (args.map fun v => v.plainText heap)
    charge budget (cost line.utf8ByteSize)
    writeLine line
    return .none
  | .int => do
    requireCount "int" args 0 1
    charge budget 1
    match args with
    | [] => return .int 0
    | v :: _ => toInteger v
  | .float => do
    requireCount "float" args 0 1
    charge budget 1
    match args with
    | [] => return .float 0.0
    | v :: _ => toDouble v
  | .str => do
    requireCount "str" args 0 1
    let heap := (← get).heap
    let text := match args with
      | [] => ""
      | v :: _ => v.plainText heap
    charge budget (cost text.utf8ByteSize)
    return .str text
  | .bool => do
    requireCount "bool" args 0 1
    charge budget 1
    match args with
    | [] => return .bool false
    | v :: _ => return .bool (← truth v)

end ProgramBreeding

import ProgramBreeding.Execution.Compare
import ProgramBreeding.Number.Checked

/-!
# Arithmetic on values

## Main definitions

* `intArithmetic` — exact arithmetic on 64-bit words, or a fault.
* `floatArithmetic` — arithmetic on doubles with a finite result, or a fault.
* `binaryOp` — the arithmetic operators on values; sequences can be joined and
  repeated.
* `signOp` — the unary operators.
* `indexWithin` — the position that an index denotes.
* `elementAt` — an element of a sequence.
-/

namespace ProgramBreeding

/-- Arithmetic on doubles.  The result is finite. -/
def floatArithmetic (op : BinaryOp) (a b : Double) : Except Fault Double :=
  let finite (x : Double) : Except Fault Double :=
    if x.isFinite then .ok x else .error .floatOutOfRange
  match op with
  | .add => finite (a + b)
  | .sub => finite (a - b)
  | .mul => finite (a * b)
  | .div => if b.isZero then .error .divisionByZero else finite (a / b)
  | .floorDiv => if b.isZero then .error .divisionByZero else finite (a / b).floor
  | .mod => if b.isZero then .error .divisionByZero else finite (a - b * (a / b).floor)
  | .pow => finite (a.pow b)

/-- The word, or an overflow. -/
def orOverflow : Option Int64 → Except Fault Num
  | some result => .ok (.int result)
  | none => .error .integerOverflow

/-- The greatest exponent of a whole power. -/
def maxExponent : Int := 4294967295

/-- Arithmetic on 64-bit words.  Division and negative powers yield doubles; every
other result is exact. -/
def intArithmetic (op : BinaryOp) (a b : Int64) : Except Fault Num :=
  match op with
  | .add => orOverflow (Checked.add a b)
  | .sub => orOverflow (Checked.sub a b)
  | .mul => orOverflow (Checked.mul a b)
  | .div =>
    if b = 0 then .error .divisionByZero
    else .ok (.float (Double.ofInt a.toInt / Double.ofInt b.toInt))
  | .floorDiv => if b = 0 then .error .divisionByZero else orOverflow (Checked.floorDiv a b)
  | .mod => if b = 0 then .error .divisionByZero else orOverflow (Checked.floorMod a b)
  | .pow =>
    if b < 0 then (floatArithmetic .pow (.ofInt a.toInt) (.ofInt b.toInt)).map .float
    else if maxExponent < b.toInt then .error .integerOverflow
    else orOverflow (Checked.pow a b.toInt.toNat)

/-- Arithmetic on numbers. -/
def numArithmetic (op : BinaryOp) : Num → Num → Except Fault Num
  | .int a, .int b => intArithmetic op a b
  | a, b => (floatArithmetic op a.toDouble b.toDouble).map .float

/-- A number as a value. -/
def Num.toValue : Num → Value
  | .int i => .int i
  | .float x => .float x

/-- How often a sequence of `size` elements or bytes is repeated; a negative count
stands for zero.  An empty sequence stays what it is however often it is repeated, so
there are no rounds for it: they would append nothing and are not paid for. -/
def repetitions (count : Int64) (size : Nat) : Except Fault Nat :=
  let count := if size = 0 then 0 else count.toInt.toNat
  if maxSequence < size * count then .error .sequenceTooLarge else .ok count

/-- A text repeated. -/
def repeatText (text : String) (count : Int64) : Exec Value := do
  let count ← ofExcept (repetitions count text.utf8ByteSize)
  return .str (String.join (List.replicate count text))

/-- A new list with the items of another one repeated. -/
def repeatList (ref : Ref) (count : Int64) : Exec Value := do
  let items ← itemsOf ref
  let count ← ofExcept (repetitions count items.size)
  newList ((List.replicate count items).foldl (· ++ ·) #[])

/-- Arithmetic on two values of which at least one is no sequence that the operator
accepts. -/
def numberOp (op : BinaryOp) (a b : Value) : Exec Value :=
  match a.number?, b.number? with
  | some x, some y => do
    return (← ofExcept (numArithmetic op x y)).toValue
  | _, _ => raise (.operandKinds op a.kind b.kind)

/-- The arithmetic operators. -/
def binaryOp (op : BinaryOp) (a b : Value) : Exec Value :=
  match op, a, b with
  | .add, .str x, .str y =>
    if maxSequence < x.utf8ByteSize + y.utf8ByteSize then raise .sequenceTooLarge
    else return .str (x ++ y)
  | .add, .list x, .list y => do
    let items := (← itemsOf x) ++ (← itemsOf y)
    if maxSequence < items.size then raise .sequenceTooLarge
    newList items
  | .mul, .str text, n =>
    match n.int? with
    | some count => repeatText text count
    | none => numberOp .mul (.str text) n
  | .mul, n, .str text =>
    match n.int? with
    | some count => repeatText text count
    | none => numberOp .mul n (.str text)
  | .mul, .list ref, n =>
    match n.int? with
    | some count => repeatList ref count
    | none => numberOp .mul (.list ref) n
  | .mul, n, .list ref =>
    match n.int? with
    | some count => repeatList ref count
    | none => numberOp .mul n (.list ref)
  | op, a, b => numberOp op a b

/-- A number with a sign. -/
def signNumber (op : UnaryOp) : Num → Except Fault Num
  | .int i => if op = .neg then orOverflow (Checked.neg i) else .ok (.int i)
  | .float x => .ok (.float (if op = .neg then -x else x))

/-- The signs, on values that are numbers. -/
def signValue (op : UnaryOp) (a : Value) : Exec Value :=
  match a.number? with
  | some n => do return (← ofExcept (signNumber op n)).toValue
  | none => raise (.signedKind op a.kind)

/-- The unary operators. -/
def signOp (op : UnaryOp) (a : Value) : Exec Value :=
  match op with
  | .not => do return .bool !(← truth a)
  | op => signValue op a

/-! ### Elements -/

/-- The position that an index denotes in a sequence; negative ones count from the
end. -/
def indexWithin (index : Value) (size : Nat) : Except Fault Nat :=
  match index.int? with
  | none => .error (.indexKind index.kind)
  | some raw =>
    let position := if raw < 0 then raw.toInt + size else raw.toInt
    if 0 ≤ position ∧ position < size then .ok position.toNat else .error .indexOutOfRange

/-- An element of a sequence. -/
def elementAt (container index : Value) : Exec Value :=
  match container with
  | .list ref => do
    let items ← itemsOf ref
    let position ← ofExcept (indexWithin index items.size)
    return items.getD position .none
  | .str text => do
    let cs := text.toList
    let position ← ofExcept (indexWithin index cs.length)
    return match cs[position]? with
      | some c => .str c.toString
      | none => .none
  | container => raise (.notSubscriptable container.kind)

end ProgramBreeding

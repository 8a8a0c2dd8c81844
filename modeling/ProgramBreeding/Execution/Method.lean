import ProgramBreeding.Execution.Builtin
import ProgramBreeding.Text.Case

/-!
# Methods

The methods of lists and texts.  A method checks everything that can fail before it
changes its list, so a call that fails has changed none.

## Main definitions

* `callListMethod`, `callTextMethod` — the methods of the two kinds.
* `callMethod` — the call of a method of any value.
-/

namespace ProgramBreeding

/-- The only argument of a method. -/
def soleArgument (method : String) (args : List Value) : Exec Value := do
  requireCount method args 1 1
  return args.headD .none

/-- Fails unless a method was called without arguments. -/
def requireNone (method : String) (args : List Value) : Exec Unit :=
  requireCount method args 0 0

/-- The text that an argument is. -/
def textArgument (method : String) : Value → Except Fault String
  | .str s => .ok s
  | v => .error (.argumentKind method v.kind)

/-- The texts that values are. -/
def textArguments (method : String) : List Value → Except Fault (List String)
  | [] => .ok []
  | v :: rest => do
    let s ← textArgument method v
    let ss ← textArguments method rest
    return s :: ss

/-! ### Lists -/

/-- Where `insert` puts an item; positions beyond the ends stand for the ends. -/
def insertPosition (raw : Int64) (size : Nat) : Nat :=
  if raw < 0 then (raw.toInt + size).toNat else min raw.toInt.toNat size

/-- The items with one more at a position. -/
def insertAt (items : Array Value) (position : Nat) (v : Value) : Array Value :=
  (items.take position).push v ++ items.drop position

/-- The call of a method of a list. -/
def callListMethod (budget : Budget) (ref : Ref) (method : String) (args : List Value) :
    Exec Value := do
  let size := (← itemsOf ref).size
  match method with
  | "append" =>
    let v ← soleArgument method args
    charge budget 1
    if maxSequence ≤ size then raise .listTooLarge
    updateList ref fun items => items.push v
    return .none
  | "extend" =>
    let extra ← iterate (← soleArgument method args)
    charge budget (cost extra.size)
    if maxSequence < size + extra.size then raise .listTooLarge
    updateList ref fun items => items ++ extra
    return .none
  | "pop" =>
    requireCount method args 0 1
    charge budget (cost size)
    if size = 0 then raise .popFromEmpty
    let position ← match args with
      | [] => pure (size - 1)
      | index :: _ => ofExcept (indexWithin index size)
    let v := (← itemsOf ref).getD position .none
    updateList ref fun items => items.eraseIdxIfInBounds position
    return v
  | "insert" =>
    requireCount method args 2 2
    charge budget (cost size)
    let index := args.headD .none
    match index.int? with
    | none => raise (.argumentKind method index.kind)
    | some raw =>
      updateList ref fun items => insertAt items (insertPosition raw size) (args.getD 1 .none)
      return .none
  | "index" =>
    let wanted ← soleArgument method args
    charge budget (cost size)
    let heap := (← get).heap
    match (heap.items ref).findIdx? fun v => equal heap v wanted with
    | some position => countValue position
    | none => raise (.notInList (wanted.text heap))
  | "count" =>
    let wanted ← soleArgument method args
    charge budget (cost size)
    let heap := (← get).heap
    countValue ((heap.items ref).countP fun v => equal heap v wanted)
  | "reverse" =>
    requireNone method args
    charge budget (cost size)
    updateList ref Array.reverse
    return .none
  | "sort" =>
    requireNone method args
    charge budget (cost size)
    let heap := (← get).heap
    let sorted ← ofExcept (sortValues heap (heap.items ref).toList)
    updateList ref fun _ => sorted.toArray
    return .none
  | "copy" =>
    requireNone method args
    charge budget (cost size)
    newList (← itemsOf ref)
  | _ => raise (.noAttribute .list method)

/-! ### Texts -/

/-- A list of texts. -/
def newTexts (texts : List String) : Exec Value :=
  newList (texts.map Value.str).toArray

/-- A text, unless it has grown too long. -/
def boundedText (text : String) : Exec Value :=
  if maxSequence < text.utf8ByteSize then raise .stringTooLarge else return .str text

/-- The call of a method of a text. -/
def callTextMethod (budget : Budget) (text method : String) (args : List Value) :
    Exec Value := do
  charge budget (cost text.utf8ByteSize)
  match method with
  | "upper" =>
    requireNone method args
    return .str (Text.upper text)
  | "lower" =>
    requireNone method args
    return .str (Text.lower text)
  | "strip" =>
    requireNone method args
    return .str (Text.trim text)
  | "split" =>
    requireCount method args 0 1
    match args with
    | [] => newTexts (Text.words text)
    | v :: _ =>
      let separator ← ofExcept (textArgument method v)
      if separator.isEmpty then raise .emptySeparator
      newTexts (Text.splitAt separator text)
  | "join" =>
    let items ← iterate (← soleArgument method args)
    charge budget (cost items.size)
    let parts ← ofExcept (textArguments method items.toList)
    boundedText (text.intercalate parts)
  | "startswith" =>
    let start ← ofExcept (textArgument method (← soleArgument method args))
    return .bool (Text.startsWith text start)
  | "endswith" =>
    let finish ← ofExcept (textArgument method (← soleArgument method args))
    return .bool (Text.endsWith text finish)
  | "replace" =>
    requireCount method args 2 2
    let pattern ← ofExcept (textArgument method (args.headD .none))
    let replacement ← ofExcept (textArgument method (args.getD 1 .none))
    if pattern.isEmpty then raise .emptyPattern
    boundedText (Text.replace pattern replacement text)
  | _ => raise (.noAttribute .str method)

/-- The call of a method of a value. -/
def callMethod (budget : Budget) (receiver : Value) (method : String) (args : List Value) :
    Exec Value :=
  match receiver with
  | .list ref => callListMethod budget ref method args
  | .str text => callTextMethod budget text method args
  | v => raise (.noAttribute v.kind method)

end ProgramBreeding

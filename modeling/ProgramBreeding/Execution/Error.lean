import ProgramBreeding.Execution.Value

/-!
# Why a run stops

## Main definitions

* `Fault` — the errors that a program makes, with `Fault.message`.
* `Stop` — a fault, a limit that was reached, or a sum that is no word, with `Stop.message`.
-/

namespace ProgramBreeding

/-- The errors that a program makes. -/
inductive Fault where
  | undefinedName (name : String)
  | notAFunction (name : String)
  | notCallable (kind : Kind)
  | attributeNotCalled (attr : String)
  | parameterCount (name : String) (expected given : Nat)
  | argumentCount (name : String) (expected given : Nat)
  | argumentRange (name : String) (least greatest given : Nat)
  | missingArguments (name : String)
  | itemAssignment (kind : Kind)
  | attributeAssignment
  | notAssignable
  | integerOverflow
  | divisionByZero
  | floatOutOfRange
  | sequenceTooLarge
  | listTooLarge
  | stringTooLarge
  | rangeTooLarge
  | zeroStep
  | operandKinds (op : BinaryOp) (left right : Kind)
  | signedKind (op : UnaryOp) (kind : Kind)
  | unordered (op : CompareOp) (left right : Kind)
  | notSearchableFor (kind : Kind)
  | notSearchable (kind : Kind)
  | indexKind (kind : Kind)
  | indexOutOfRange
  | notSubscriptable (kind : Kind)
  | notIterable (kind : Kind)
  | noLength (kind : Kind)
  | argumentKind (name : String) (kind : Kind)
  | notAnInteger (kind : Kind)
  | floatToInteger
  | integerText (quoted : String)
  | floatText
  | emptySequence (name : String)
  | noAttribute (kind : Kind) (name : String)
  | popFromEmpty
  | notInList (text : String)
  | emptySeparator
  | emptyPattern
  | nestedTooDeeply
  | functionsStay

/-- The symbol of a sign in a message. -/
def signSymbol : UnaryOp → String
  | .neg => "-"
  | .pos => "+"
  | .not => "not"

/-- A name between single quotes. -/
def quoteName (name : String) : String := "'" ++ name ++ "'"

/-- Kinds between single quotes. -/
def quoteKinds (left right : Kind) : String :=
  quoteName left.name ++ " and " ++ quoteName right.name

/-- The wording of a fault. -/
def Fault.message : Fault → String
  | .undefinedName name => "name " ++ quoteName name ++ " is not defined"
  | .notAFunction name => "name " ++ quoteName name ++ " is not a function"
  | .notCallable kind => quoteName kind.name ++ " object is not callable"
  | .attributeNotCalled attr => "attribute " ++ quoteName attr ++ " can only be called"
  | .parameterCount name expected given =>
    name ++ "() takes " ++ toString expected ++ " positional argument(s) but " ++
      toString given ++ " were given"
  | .argumentCount name expected given =>
    name ++ "() takes exactly " ++ toString expected ++ " argument(s) (" ++ toString given ++
      " given)"
  | .argumentRange name least greatest given =>
    name ++ "() takes from " ++ toString least ++ " to " ++ toString greatest ++
      " arguments (" ++ toString given ++ " given)"
  | .missingArguments name => name ++ " expected at least 1 argument"
  | .itemAssignment kind => quoteName kind.name ++ " object does not support item assignment"
  | .attributeAssignment => "attribute assignment is not supported"
  | .notAssignable => "cannot assign to expression"
  | .integerOverflow => "integer overflow"
  | .divisionByZero => "division by zero"
  | .floatOutOfRange => "float result out of range"
  | .sequenceTooLarge => "sequence too large"
  | .listTooLarge => "list too large"
  | .stringTooLarge => "string too large"
  | .rangeTooLarge => "range too large"
  | .zeroStep => "range() arg 3 must not be zero"
  | .operandKinds op left right =>
    "unsupported operand type(s) for " ++ op.symbol ++ ": " ++ quoteKinds left right
  | .signedKind op kind =>
    "bad operand type for unary " ++ signSymbol op ++ ": " ++ quoteName kind.name
  | .unordered op left right =>
    quoteName op.symbol ++ " not supported between instances of " ++ quoteKinds left right
  | .notSearchableFor kind =>
    "'in <string>' requires string as left operand, not " ++ kind.name
  | .notSearchable kind => "argument of type " ++ quoteName kind.name ++ " is not iterable"
  | .indexKind kind => "indices must be integers, not " ++ kind.name
  | .indexOutOfRange => "index out of range"
  | .notSubscriptable kind => quoteName kind.name ++ " object is not subscriptable"
  | .notIterable kind => quoteName kind.name ++ " object is not iterable"
  | .noLength kind => "object of type " ++ quoteName kind.name ++ " has no len()"
  | .argumentKind name kind =>
    "bad argument type for " ++ name ++ "(): " ++ quoteName kind.name
  | .notAnInteger kind =>
    quoteName kind.name ++ " object cannot be interpreted as an integer"
  | .floatToInteger => "cannot convert float to integer"
  | .integerText quoted => "invalid literal for int(): " ++ quoted
  | .floatText => "could not convert string to float"
  | .emptySequence name => name ++ "() arg is an empty sequence"
  | .noAttribute kind name =>
    quoteName kind.name ++ " object has no attribute " ++ quoteName name
  | .popFromEmpty => "pop from empty list"
  | .notInList text => text ++ " is not in list"
  | .emptySeparator => "empty separator"
  | .emptyPattern => "empty pattern"
  | .nestedTooDeeply => "value nested too deeply"
  | .functionsStay => "functions cannot leave the interpreter"

/-- Why a run stops before its end. -/
inductive Stop where
  /-- The fuel is spent. -/
  | outOfFuel (fuel : UInt64)
  /-- The deadline has passed. -/
  | deadline
  /-- The run was cancelled from outside. -/
  | cancelled
  /-- Too many calls are nested. -/
  | recursionLimit (depth : Nat)
  /-- A sum of words is not a word, where sums are checked. -/
  | overflow
  /-- The program made an error. -/
  | fault (fault : Fault)

/-- Whether fuel or time ran out. -/
def Stop.isTimeout : Stop → Bool
  | .outOfFuel _ | .deadline => true
  | _ => false

/-- The wording of a stop. -/
def Stop.message : Stop → String
  | .outOfFuel fuel => "fuel budget of " ++ toString fuel.toNat ++ " units exhausted"
  | .deadline => "deadline exceeded"
  | .cancelled => "execution cancelled"
  | .recursionLimit depth => "maximum recursion depth of " ++ toString depth ++ " exceeded"
  | .overflow => "attempt to add with overflow"
  | .fault f => f.message

end ProgramBreeding

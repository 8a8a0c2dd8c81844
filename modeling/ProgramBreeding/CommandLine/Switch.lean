/-!
# Switches

The arguments of a command: switches with and without values, in any order, and the
texts that stand alone.

## Main definitions

* `Topic` — what can be asked about the program itself.
* `Switch` — a switch with its names and what it does to the options.
* `Refusal` — why arguments do not make sense.
* `readArguments` — options and texts that stand alone, read from arguments.

## Design notes

A switch has a name of several letters after two hyphens, and it may have one of a
single letter after one hyphen.  Switches of one letter can be written together; the
value of the last of them may follow at once.  After two hyphens alone no argument is a
switch any more.  An argument that looks like a switch is never the value of one, except
after an equals sign.
-/

namespace ProgramBreeding.CommandLine

/-- What can be asked about the program itself. -/
inductive Topic where
  | help
  | version
  deriving DecidableEq, Repr

/-- What a switch does to options of type `σ`. -/
inductive Effect (σ : Type) where
  /-- Changes the options; there is no value. -/
  | flag (apply : σ → σ)
  /-- Changes the options by a value, if it can be read. -/
  | value (apply : String → σ → Option σ)
  /-- Asks about the program and ends the reading. -/
  | ask (topic : Topic)

/-- A switch. -/
structure Switch (σ : Type) where
  long : String
  short : Option Char := none
  /-- Whether it may be given more than once. -/
  isRepeatable : Bool := false
  effect : Effect σ

/-- Why arguments do not make sense. -/
inductive Refusal where
  | unknownSwitch (name : String)
  | missingValue (name : String)
  | unexpectedValue (name : String)
  | unreadableValue (name value : String)
  | repeatedSwitch (name : String)
  | missingFile
  | unexpectedArgument (argument : String)
  | missingCommand
  | unknownCommand (name : String)
  /-- Nothing is wrong, but something is asked about the program. -/
  | asked (topic : Topic)
  deriving DecidableEq, Repr

/-- The wording of a refusal. -/
def Refusal.message : Refusal → String
  | .unknownSwitch name => "unexpected argument '" ++ name ++ "'"
  | .missingValue name => "a value is required for '--" ++ name ++ "'"
  | .unexpectedValue name => "no value is expected for '--" ++ name ++ "'"
  | .unreadableValue name value => "invalid value '" ++ value ++ "' for '--" ++ name ++ "'"
  | .repeatedSwitch name => "'--" ++ name ++ "' cannot be used multiple times"
  | .missingFile => "a file is required"
  | .unexpectedArgument argument => "unexpected argument '" ++ argument ++ "'"
  | .missingCommand => "a command is required"
  | .unknownCommand name => "unrecognized command '" ++ name ++ "'"
  | .asked .help => "help"
  | .asked .version => "version"

/-- What has been read. -/
structure Reading (σ : Type) where
  options : σ
  /-- The long names of the switches given. -/
  given : List String := []
  /-- The texts that stand alone, in reverse. -/
  texts : List String := []

variable {σ : Type}

namespace Reading

/-- Notes a switch that is given. -/
def give (r : Reading σ) (s : Switch σ) : Except Refusal (Reading σ) :=
  if r.given.contains s.long && !s.isRepeatable then .error (.repeatedSwitch s.long)
  else .ok { r with given := s.long :: r.given }

/-- Applies a switch to its value. -/
def applyValue (r : Reading σ) (s : Switch σ) (value : String) :
    Except Refusal (Reading σ) := do
  match s.effect with
  | .value apply =>
    match apply value r.options with
    | some options => return { ← r.give s with options := options }
    | none => throw (.unreadableValue s.long value)
  | .flag _ => throw (.unexpectedValue s.long)
  | .ask _ => throw (.unexpectedValue s.long)

/-- Adds a text that stands alone. -/
def addText (r : Reading σ) (text : String) : Reading σ := { r with texts := text :: r.texts }

end Reading

/-- What an argument asks for. -/
inductive Demand (σ : Type) where
  /-- Nothing more. -/
  | done (reading : Reading σ)
  /-- The next argument as the value of a switch. -/
  | valueOf (reading : Reading σ) (s : Switch σ)

/-- Reads a switch by its long name; what follows an equals sign is its value. -/
def readLong (switches : List (Switch σ)) (r : Reading σ) (name : String)
    (value : Option String) : Except Refusal (Demand σ) := do
  match switches.find? fun s => s.long == name with
  | none => throw (.unknownSwitch ("--" ++ name))
  | some s =>
    match value, s.effect with
    | some value, _ => return .done (← r.applyValue s value)
    | none, .flag apply =>
      let r ← r.give s
      return .done { r with options := apply r.options }
    | none, .value _ => return .valueOf r s
    | none, .ask topic => throw (.asked topic)

/-- Reads switches of one letter written together; what follows the first one that
takes a value is its value. -/
def readShort (switches : List (Switch σ)) (r : Reading σ) :
    List Char → Except Refusal (Demand σ)
  | [] => return .done r
  | c :: rest => do
    match switches.find? fun s => s.short == some c with
    | none => throw (.unknownSwitch (String.ofList ['-', c]))
    | some s =>
      match s.effect, rest with
      | .flag apply, rest =>
        let r ← r.give s
        readShort switches { r with options := apply r.options } rest
      | .ask topic, _ => throw (.asked topic)
      | .value _, [] => return .valueOf r s
      | .value _, '=' :: value => return .done (← r.applyValue s (String.ofList value))
      | .value _, value => return .done (← r.applyValue s (String.ofList value))

/-- The name and the value of a long switch. -/
def splitEquals (cs : List Char) : String × Option String :=
  match cs.dropWhile (· != '=') with
  | [] => (String.ofList cs, none)
  | _ :: value => (String.ofList (cs.takeWhile (· != '=')), some (String.ofList value))

/-- Whether an argument looks like a switch. -/
def looksLikeSwitch (argument : String) : Bool :=
  match argument.toList with
  | '-' :: _ :: _ => true
  | _ => false

/-- Reads one argument. -/
def readArgument (switches : List (Switch σ)) (r : Reading σ) (argument : String) :
    Except Refusal (Demand σ) :=
  match argument.toList with
  | '-' :: '-' :: cs =>
    let (name, value) := splitEquals cs
    readLong switches r name value
  | '-' :: c :: cs => readShort switches r (c :: cs)
  | _ => .ok (.done (r.addText argument))

/-- Reads arguments; `pending` is a switch that waits for its value. -/
def readFrom (switches : List (Switch σ)) (r : Reading σ) (pending : Option (Switch σ)) :
    List String → Except Refusal (Reading σ)
  | [] =>
    match pending with
    | some s => .error (.missingValue s.long)
    | none => .ok r
  | argument :: rest => do
    match pending with
    | some s =>
      if looksLikeSwitch argument then throw (.missingValue s.long)
      else readFrom switches (← r.applyValue s argument) none rest
    | none =>
      if argument == "--" then return rest.foldl Reading.addText r
      else
        match ← readArgument switches r argument with
        | .done r => readFrom switches r none rest
        | .valueOf r s => readFrom switches r (some s) rest

/-- The options and the texts that stand alone. -/
def readArguments (switches : List (Switch σ)) (options : σ) (arguments : List String) :
    Except Refusal (σ × List String) := do
  let r ← readFrom switches { options := options } none arguments
  return (r.options, r.texts.reverse)

end ProgramBreeding.CommandLine

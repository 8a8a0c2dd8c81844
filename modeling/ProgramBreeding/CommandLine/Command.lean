import ProgramBreeding.Breeding.Score
import ProgramBreeding.CommandLine.Switch
import ProgramBreeding.Number.Numeral
import ProgramBreeding.Text.Search

/-!
# Commands

## Main definitions

* `Command` — what the program can be asked to do.
* `EvolveOptions` — the options of a run.
* `readCommand` — the command that arguments stand for.
-/

namespace ProgramBreeding.CommandLine

/-- How the outcome of a run is written. -/
inductive OutputFormat where
  | text
  | json
  deriving DecidableEq, Repr

/-- The options of a run; what is missing is taken from the settings. -/
structure EvolveOptions where
  population : Option Nat := none
  generations : Option Nat := none
  mutationRate : Option Double := none
  crossoverRate : Option Double := none
  seed : Option Nat := none
  patience : Option Nat := none
  workers : Option Nat := none
  weights : Option Weights := none
  /-- The file with the settings. -/
  config : Option String := none
  /-- The file for the best candidate. -/
  output : Option String := none
  format : OutputFormat := .text
  /-- The number of candidates of the last generation that are listed. -/
  top : Nat := 5

/-- What the program can be asked to do. -/
inductive Command where
  /-- Write a program in its canonical form, or only check that it has it. -/
  | format (file : String) (isCheck : Bool)
  /-- Breed a better program. -/
  | evolve (file : String) (options : EvolveOptions)

/-! ### Values of switches -/

/-- A natural number that fits in a word. -/
def readNatural (text : String) : Option Nat :=
  let ds := match text.toList with
    | '+' :: rest => rest
    | cs => cs
  if ds.isEmpty || !ds.all Char.isDigit then none
  else
    let n := Number.digitsValue ds
    if n < UInt64.size then some n else none

/-- A path, which is not empty. -/
def readPath (text : String) : Option String := if text.isEmpty then none else some text

/-- The name of an output format. -/
def readFormat : String → Option OutputFormat
  | "text" => some .text
  | "json" => some .json
  | _ => none

/-- Three weights between commas, if they can be used. -/
def readWeights (text : String) : Option Weights := do
  match (Text.splitAt "," text).map Text.trim with
  | [c, p, r] =>
    let weights : Weights :=
      ⟨← Number.readFloat c, ← Number.readFloat p, ← Number.readFloat r⟩
    if weights.check.isOk then some weights else none
  | _ => none

/-! ### Switches -/

/-- A switch whose value is read and then stored. -/
def valueSwitch {σ α : Type} (long : String) (short : Option Char) (read : String → Option α)
    (store : α → σ → σ) : Switch σ where
  long := long
  short := short
  effect := .value fun text options => (read text).map fun value => store value options

/-- The switches of all commands. -/
def commonSwitches {σ : Type} : List (Switch σ) :=
  [{ long := "verbose", short := some 'v', isRepeatable := true, effect := .flag id },
    { long := "help", short := some 'h', effect := .ask .help }]

/-- The switches before the name of a command. -/
def leadingSwitches : List (Switch Unit) :=
  commonSwitches ++ [{ long := "version", short := some 'V', effect := .ask .version }]

/-- The switches of a run. -/
def evolveSwitches : List (Switch EvolveOptions) :=
  commonSwitches ++ [
    valueSwitch "population" (some 'p') readNatural fun n o => { o with population := some n },
    valueSwitch "generations" (some 'g') readNatural fun n o => { o with generations := some n },
    valueSwitch "mutation-rate" (some 'm') Number.readFloat fun x o =>
      { o with mutationRate := some x },
    valueSwitch "crossover-rate" (some 'c') Number.readFloat fun x o =>
      { o with crossoverRate := some x },
    valueSwitch "seed" (some 's') readNatural fun n o => { o with seed := some n },
    valueSwitch "patience" none readNatural fun n o => { o with patience := some n },
    valueSwitch "workers" (some 'j') readNatural fun n o => { o with workers := some n },
    valueSwitch "weights" (some 'w') readWeights fun w o => { o with weights := some w },
    valueSwitch "config" none readPath fun path o => { o with config := some path },
    valueSwitch "output" (some 'o') readPath fun path o => { o with output := some path },
    valueSwitch "format" (some 'f') readFormat fun format o => { o with format := format },
    valueSwitch "top" (some 't') readNatural fun n o => { o with top := n },
    { long := "progress", effect := .flag id }]

/-- The switches of the command that formats. -/
def formatSwitches : List (Switch Bool) :=
  commonSwitches ++ [{ long := "check", effect := .flag fun _ => true }]

/-! ### Commands -/

/-- The only text that stands alone, which is a path. -/
def soleFile : List String → Except Refusal String
  | [] => .error .missingFile
  | [file] => if file.isEmpty then .error .missingFile else .ok file
  | _ :: extra :: _ => .error (.unexpectedArgument extra)

/-- The names of the commands. -/
def commandNames : List String := ["evolve", "fmt", "help"]

/-- What comes of a question for help, which may name one command. -/
def askedHelp : List String → Refusal
  | [] => .asked .help
  | [name] => if commandNames.contains name then .asked .help else .unknownCommand name
  | name :: extra :: _ => .unknownCommand (if commandNames.contains name then extra else name)

/-- The command with a name and arguments. -/
def readNamed (name : String) (arguments : List String) : Except Refusal Command := do
  match name with
  | "fmt" =>
    let (isCheck, texts) ← readArguments formatSwitches false arguments
    return .format (← soleFile texts) isCheck
  | "evolve" =>
    let (options, texts) ← readArguments evolveSwitches {} arguments
    return .evolve (← soleFile texts) options
  | "help" => throw (askedHelp arguments)
  | name => throw (.unknownCommand name)

/-- The command that arguments stand for: its name comes after the leading switches. -/
def readCommand : List String → Except Refusal Command
  | [] => .error .missingCommand
  | argument :: rest => do
    if argument == "--" then throw .missingCommand
    if looksLikeSwitch argument then
      let _ ← readArguments leadingSwitches () [argument]
      readCommand rest
    else readNamed argument rest

end ProgramBreeding.CommandLine

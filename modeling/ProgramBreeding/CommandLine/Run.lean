import ProgramBreeding.Breeding.Settings
import ProgramBreeding.CommandLine.Command
import ProgramBreeding.CommandLine.Summary
import ProgramBreeding.Generator

/-!
# Running commands

## Main definitions

* `Files` — how files are read and written.
* `Exit` — what a command leaves behind: an exit code and what it printed.
* `EvolveOptions.settings` — the settings of a run with options applied.
* `run` — runs the command that arguments stand for.
* `Directory` — files kept in memory.

## Design notes

A command does nothing but read and write files, so it is written for any way of doing
so: `Files` names the two operations in a monad.  `Directory.files` is the way that
keeps everything in memory.
-/

namespace ProgramBreeding.CommandLine

/-- How files are read and written; what goes wrong is told in words. -/
structure Files (m : Type → Type) where
  read : String → m (Except String String)
  write : String → String → m (Except String Unit)

/-- What a command leaves behind. -/
structure Exit where
  code : Nat
  output : String
  errors : String

/-- The end of a command that went well. -/
def Exit.success (output : String) : Exit := ⟨0, output, ""⟩

/-- The end of a command that went wrong. -/
def Exit.failure (message : String) : Exit := ⟨1, "", "Error: " ++ message ++ "\n"⟩

/-- A short help. -/
def helpText : String :=
  "Usage: evolve FILE [options]\n" ++
    "       fmt FILE [--check]\n"

/-- The name of the program and its version. -/
def versionText : String := "codevolve 0.1.0\n"

/-- The answer to a question about the program. -/
def Topic.text : Topic → String
  | .help => helpText
  | .version => versionText

/-- The end when the arguments do not make a command. -/
def Exit.refusal : Refusal → Exit
  | .asked topic => .success topic.text
  | refusal => ⟨2, "", "error: " ++ refusal.message ++ "\n"⟩

/-! ### Settings -/

/-- Settings with options applied. -/
def EvolveOptions.apply (o : EvolveOptions) (s : EvolutionSettings) : EvolutionSettings :=
  { s with
    populationSize := o.population.getD s.populationSize
    generations := o.generations.getD s.generations
    seed := (o.seed.map Nat.toUInt64).getD s.seed
    patience := o.patience.getD s.patience
    workers := o.workers.getD s.workers
    fitness := { s.fitness with weights := o.weights.getD s.fitness.weights }
    crossover := { s.crossover with rate := o.crossoverRate.getD s.crossover.rate }
    mutation := { s.mutation with rate := o.mutationRate.getD s.mutation.rate } }

/-- The settings of a run, given the text of the file that was named, if one was. -/
def EvolveOptions.settings (o : EvolveOptions) (config : Option (String × String)) :
    Except String EvolutionSettings :=
  match config with
  | none => .ok (o.apply {})
  | some (path, text) =>
    match EvolutionSettings.read text with
    | some settings => .ok (o.apply settings)
    | none => .error ("Invalid config " ++ path)

/-- The file for the best candidate if none was named: beside the program, with another
name. -/
def defaultOutput (file : String) : String :=
  let reversed := file.toList.reverse
  let name := String.ofList (reversed.takeWhile (· != '/')).reverse
  match reversed.dropWhile (· != '/') with
  | [] => "optimized_" ++ name
  | slashes =>
    let parent := String.ofList (slashes.dropWhile (· == '/')).reverse
    parent ++ "/optimized_" ++ name

/-! ### Commands -/

section

variable {m : Type → Type} [Monad m]

/-- Writes a program in its canonical form, or checks that it has it. -/
def runFormat (file source : String) (isCheck : Bool) : Exit :=
  match Source.parse source with
  | .error e => .failure ("parse error at " ++ e.display)
  | .ok body =>
    let canonical := Source.render body
    if !isCheck then .success canonical
    else if canonical == source then .success ""
    else .failure (file ++ " is not in canonical form")

/-- What is printed about an outcome whose best candidate was written to a file. -/
def outcomeOutput (o : EvolveOptions) (destination : String) (outcome : Outcome) : String :=
  match o.format with
  | .text => outcomeText outcome o.top ++ "\nWrote " ++ destination ++ "\n"
  | .json => (outcomeJson outcome o.top).pretty ++ "\n"

/-- Breeds a better program with given settings and writes it. -/
def runEvolution (files : Files m) (file source : String) (o : EvolveOptions)
    (settings : EvolutionSettings) : m Exit := do
  match Evolution.prepare source settings >>= fun e => e.run Chance.Generator {} with
  | .error e => return .failure e.message
  | .ok (outcome, _) =>
    let destination := o.output.getD (defaultOutput file)
    match ← files.write destination outcome.best.source with
    | .error e => return .failure ("Failed to write " ++ destination ++ ": " ++ e)
    | .ok _ => return .success (outcomeOutput o destination outcome)

/-- A file that must be there. -/
def readFile (files : Files m) (path : String) : m (Except String String) := do
  match ← files.read path with
  | .error e => return .error ("Failed to read " ++ path ++ ": " ++ e)
  | .ok text => return .ok text

/-- The file with the settings, if one was named. -/
def readConfig (files : Files m) : Option String → m (Except String (Option (String × String)))
  | none => return .ok none
  | some path => do
    match ← readFile files path with
    | .error e => return .error e
    | .ok text => return .ok (some (path, text))

/-- Breeds a better program. -/
def runEvolve (files : Files m) (file source : String) (o : EvolveOptions) : m Exit := do
  match ← readConfig files o.config with
  | .error e => return .failure e
  | .ok config =>
    match o.settings config with
    | .error e => return .failure e
    | .ok settings => runEvolution files file source o settings

/-- Runs a command. -/
def Command.run (files : Files m) : Command → m Exit
  | .format file isCheck => do
    match ← readFile files file with
    | .error e => return .failure e
    | .ok source => return runFormat file source isCheck
  | .evolve file o => do
    match ← readFile files file with
    | .error e => return .failure e
    | .ok source => runEvolve files file source o

/-- Runs the command that arguments stand for. -/
def run (files : Files m) (arguments : List String) : m Exit :=
  match readCommand arguments with
  | .error refusal => return .refusal refusal
  | .ok command => command.run files

end

/-! ### Files in memory -/

/-- Files by their names; the newest one of a name counts. -/
abbrev Directory := List (String × String)

namespace Directory

/-- The parts of a path that lead somewhere. -/
def parts (path : String) : List String :=
  (Text.splitAt "/" path).filter fun part => !part.isEmpty && part != "."

/-- Whether a path denotes a file or a directory. -/
inductive Entry where
  | file (text : String)
  | directory
  | missing
  /-- A file stands where a directory is needed. -/
  | blocked

/-- What a path denotes. -/
def entry (d : Directory) (path : String) : Entry :=
  let wanted := parts path
  match d.find? fun file => parts file.1 == wanted with
  | some file =>
    if Text.endsWith path "/" || Text.endsWith path "/." then .blocked else .file file.2
  | none =>
    if wanted.isEmpty || d.any fun file => wanted.isPrefixOf (parts file.1) then .directory
    else if d.any fun file => (parts file.1).isPrefixOf wanted then .blocked
    else .missing

/-- The wording of a path that leads nowhere. -/
def noSuchFile : String := "No such file or directory (os error 2)"

/-- The wording of a file that stands where a directory is needed. -/
def notADirectory : String := "Not a directory (os error 20)"

/-- The wording of a directory that stands where a file is needed. -/
def isADirectory : String := "Is a directory (os error 21)"

/-- The text of a file. -/
def read (d : Directory) (path : String) : Except String String :=
  match d.entry path with
  | .file text => .ok text
  | .directory => .error isADirectory
  | .missing => .error noSuchFile
  | .blocked => .error notADirectory

/-- The directory with a file written. -/
def write (d : Directory) (path text : String) : Except String Directory :=
  let wanted := parts path
  let name := "/".intercalate wanted
  match d.entry path with
  | .file _ => .ok (d.map fun file => if parts file.1 == wanted then (file.1, text) else file)
  | .directory => .error isADirectory
  | .blocked => .error notADirectory
  | .missing =>
    let parent := wanted.dropLast
    if Text.endsWith path "/" then .error isADirectory
    else if parent.isEmpty || d.any fun file => parent.isPrefixOf (parts file.1) then
      .ok (d ++ [(name, text)])
    else .error noSuchFile

/-- Reading and writing in memory. -/
def files : Files (StateM Directory) where
  read path := do return (← get).read path
  write path text := do
    match (← get).write path text with
    | .ok d =>
      set d
      return .ok ()
    | .error e => return .error e

end Directory

end ProgramBreeding.CommandLine

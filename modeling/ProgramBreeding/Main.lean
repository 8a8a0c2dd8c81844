import ProgramBreeding.CommandLine.Run

/-!
# The program

Runs a command on the files of the system.
-/

namespace ProgramBreeding

open CommandLine

/-- An error of the system in words. -/
def systemError (e : IO.Error) : String :=
  match e with
  | .noFileOrDirectory .. => Directory.noSuchFile
  | e => toString e

/-- Reading and writing files of the system. -/
def systemFiles : Files IO where
  read path := do
    try
      return .ok (← IO.FS.readFile path)
    catch e =>
      return .error (systemError e)
  write path text := do
    try
      IO.FS.writeFile path text
      return .ok ()
    catch e =>
      return .error (systemError e)

end ProgramBreeding

open ProgramBreeding in
/-- Runs the command that the arguments stand for. -/
def main (arguments : List String) : IO UInt32 := do
  let exit ← CommandLine.run systemFiles arguments
  (← IO.getStdout).putStr exit.output
  (← IO.getStderr).putStr exit.errors
  return exit.code.toUInt32

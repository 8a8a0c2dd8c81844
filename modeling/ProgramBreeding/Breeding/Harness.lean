import ProgramBreeding.Execution.Datum
import ProgramBreeding.Execution.Session
import ProgramBreeding.Number.Real
import ProgramBreeding.Chance

/-!
# Test cases

What a program does is recorded on random arguments.  Other programs are called with
the same arguments and compared with the record.

## Main definitions

* `HarnessSettings` — how cases are made and replayed.
* `TestCase` — a call with its result.
* `Harness.record` — the cases of a program.
* `Watch` — what happens around a replay.
* `Harness.replay` — a program compared with the record.
* `Report` — the outcome of a comparison.

## Design notes

The clock and the cancel flag are outside of a program.  A `Watch` says what a case
finds when it looks at them, and this may depend on the case and on the fuel spent in
it.  A case whose time limit is zero is over when it looks at the clock first.

A case is one call of a program that has just been loaded, and does not go on after a
charge that comes anywhere near the greatest word.  So it makes no difference in practice
whether sums of words are checked, and here they are not.
-/

namespace ProgramBreeding

open Chance

/-- How test cases are made and replayed. -/
structure HarnessSettings where
  /-- The number of attempts at a case for each function with parameters. -/
  casesPerFunction : Nat := 8
  /-- The seed of the arguments. -/
  seed : UInt64 := 24301
  /-- The greatest length of a list among the arguments. -/
  maxListLength : Nat := 12
  /-- The fuel for recording a case. -/
  referenceFuel : UInt64 := 1000000
  /-- The least fuel for replaying a case. -/
  minFuel : UInt64 := 10000
  /-- The fuel for replaying a case, as a multiple of what recording it took. -/
  fuelMultiplier : UInt64 := 4
  /-- The time for replaying a case, in milliseconds. -/
  caseTimeout : UInt64 := 250

/-- A call with its result. -/
structure TestCase where
  function : String
  args : List Datum
  expected : Datum
  /-- What the call wrote. -/
  output : String
  /-- The fuel that the call took, loading included. -/
  referenceFuel : UInt64

/-- Test cases and the settings for replaying them. -/
structure Harness where
  cases : List TestCase
  settings : HarnessSettings

/-! ### Arguments -/

/-- The kinds of arguments. -/
inductive ArgumentShape where
  /-- Lists of integers only. -/
  | lists
  /-- Small integers only. -/
  | integers
  /-- A list of integers first, then small integers. -/
  | mixed

/-- The shapes take turns. -/
def ArgumentShape.ofAttempt (attempt : Nat) : ArgumentShape :=
  match attempt % 3 with
  | 0 => .lists
  | 1 => .integers
  | _ => .mixed

section

variable {G : Type} [RandomSource G]

/-- A random integer between two others. -/
def drawInteger (low high : Int) : Draw G Datum := do
  return .int (Int64.ofInt (← between low high))

/-- Some random integers that lists hold. -/
def drawItems : Nat → Draw G (List Datum)
  | 0 => return []
  | count + 1 => do
    let item ← drawInteger (-20) 20
    return item :: (← drawItems count)

/-- A random list of integers. -/
def drawList (maxLength : Nat) : Draw G Datum := do
  return .list (← drawItems (← below (maxLength + 1)))

/-- A random argument; `isFirst` is said of the first of a call. -/
def drawArgument (maxLength : Nat) (shape : ArgumentShape) (isFirst : Bool) : Draw G Datum :=
  match shape with
  | .lists => drawList maxLength
  | .integers => drawInteger 0 12
  | .mixed => if isFirst then drawList maxLength else drawInteger (-5) 12

/-- Some random arguments after the first. -/
def drawOthers (maxLength : Nat) (shape : ArgumentShape) : Nat → Draw G (List Datum)
  | 0 => return []
  | count + 1 => do
    let arg ← drawArgument maxLength shape false
    return arg :: (← drawOthers maxLength shape count)

/-- The random arguments of a call. -/
def drawArguments (maxLength : Nat) (shape : ArgumentShape) : Nat → Draw G (List Datum)
  | 0 => return []
  | others + 1 => do
    let first ← drawArgument maxLength shape true
    return first :: (← drawOthers maxLength shape others)

/-- The arguments of so many attempts, counted from `attempt`. -/
def drawAttempts (maxLength arity : Nat) : Nat → Nat → Draw G (List (List Datum))
  | 0, _ => return []
  | count + 1, attempt => do
    let args ← drawArguments maxLength (ArgumentShape.ofAttempt attempt) arity
    return args :: (← drawAttempts maxLength arity count (attempt + 1))

/-- The first of equal ones; `seen` have come before. -/
def distinctFrom (seen : List (List Datum)) : List (List Datum) → List (List Datum)
  | [] => []
  | args :: rest =>
    if seen.any fun other => Datum.allEqual other args then distinctFrom seen rest
    else args :: distinctFrom (args :: seen) rest

/-! ### Recording -/

/-- A call with its result; there is none if the call stops. -/
def recordCase (settings : HarnessSettings) (p : Program) (function : String)
    (args : List Datum) : Option TestCase :=
  match p.run { fuel := settings.referenceFuel } function args with
  | .ok e => some ⟨function, args, e.value, e.output, e.used⟩
  | .error _ => none

/-- The cases of a function. -/
def recordFunction (settings : HarnessSettings) (p : Program) (function : String)
    (arity : Nat) : Draw G (List TestCase) := do
  let count := if arity = 0 then 1 else settings.casesPerFunction
  let attempts ← drawAttempts settings.maxListLength arity count 0
  return (distinctFrom [] attempts).filterMap (recordCase settings p function)

/-- The cases of some functions. -/
def recordFunctions (settings : HarnessSettings) (p : Program) :
    List (String × Nat) → Draw G (List TestCase)
  | [] => return []
  | (function, arity) :: rest => do
    let cases ← recordFunction settings p function arity
    return cases ++ (← recordFunctions settings p rest)

end

/-- The cases of all functions of a program. -/
def Harness.record (G : Type) [RandomSource G] (settings : HarnessSettings) (t : Tree) : Harness :=
  let act := recordFunctions settings (Program.ofTree t) t.signatures
  ⟨(act (RandomSource.ofSeed settings.seed : G)).1, settings⟩

/-! ### Replaying -/

/-- What the cases of a replay find when they look at the cancel flag and the clock,
given the number of the case and the fuel spent in it. -/
structure Watch where
  cancelled : Nat → UInt64 → Bool := fun _ _ => false
  /-- Whether a time limit is over that is not zero. -/
  late : Nat → UInt64 → Bool := fun _ _ => false

/-- The outcome of a comparison. -/
structure Report where
  /-- The share of cases with the same result. -/
  correctness : Double
  /-- How little fuel was spent, on average: one half for as much as recorded. -/
  performance : Double
  /-- The number of cases that ran out of fuel or time. -/
  timeouts : Nat
  /-- The number of cases that stopped with an error of the program. -/
  failures : Nat
  /-- Whether the comparison was cut off. -/
  cancelled : Bool

/-- What has been counted in a comparison. -/
structure Tally where
  passed : Nat := 0
  /-- The sum of the shares of fuel in the cases passed. -/
  shares : Double := 0.0
  timeouts : Nat := 0
  failures : Nat := 0
  cancelled : Bool := false

/-- A case that has stopped is counted. -/
def Tally.stop (tally : Tally) (stop : Stop) : Tally :=
  match stop with
  | .cancelled => { tally with cancelled := true }
  | stop =>
    if stop.isTimeout then { tally with timeouts := tally.timeouts + 1 }
    else { tally with failures := tally.failures + 1 }

/-- Whether a call has the result on record. -/
def TestCase.passes (c : TestCase) (e : Program.Execution) : Bool :=
  e.value.equal c.expected && e.output == c.output

namespace Harness

/-- The fuel for replaying a case. -/
def fuelLimit (h : Harness) (c : TestCase) : UInt64 :=
  let product := c.referenceFuel.toNat * h.settings.fuelMultiplier.toNat
  (max (min product (UInt64.size - 1)) h.settings.minFuel.toNat).toUInt64

/-- The limits of the case with number `i`. -/
def budget (h : Harness) (fuel : UInt64) (watch : Watch) (i : Nat) : Budget where
  fuel := fuel
  cancelled := watch.cancelled i
  expired := fun used => h.settings.caseTimeout == 0 || watch.late i used

/-- The share of the fuel of a case in that fuel and the fuel now spent together. -/
def share (reference used : UInt64) : Double :=
  let spent := Double.ofNat reference.toNat
  spent / Number.maxDefined (spent + Double.ofNat used.toNat) 1.0

/-- The case with number `i` replayed and counted. -/
def replayCase (h : Harness) (p : Program) (watch : Watch) (i : Nat) (c : TestCase)
    (tally : Tally) : Tally :=
  match p.run (h.budget (h.fuelLimit c) watch i) c.function c.args with
  | .ok e =>
    if c.passes e then
      { tally with
        passed := tally.passed + 1
        shares := tally.shares + share c.referenceFuel e.used }
    else tally
  | .error stop => tally.stop stop

/-- Cases replayed and counted, from number `i` on, up to a cancellation. -/
def replayFrom (h : Harness) (p : Program) (watch : Watch) :
    Nat → List TestCase → Tally → Tally
  | _, [], tally => tally
  | i, c :: rest, tally =>
    let tally := h.replayCase p watch i c tally
    if tally.cancelled then tally else replayFrom h p watch (i + 1) rest tally

/-- A program without cases only has to load. -/
def replayLoading (h : Harness) (p : Program) (watch : Watch) : Report :=
  match p.load (h.budget h.settings.minFuel watch 0) {} with
  | .ok _ _ => ⟨1.0, 0.5, 0, 0, false⟩
  | .error stop _ =>
    let tally := Tally.stop {} stop
    ⟨0.0, 0.0, tally.timeouts, tally.failures, tally.cancelled⟩

/-- A program compared with the record. -/
def replay (h : Harness) (t : Tree) (watch : Watch) : Report :=
  let p := Program.ofTree t
  if h.cases.isEmpty then h.replayLoading p watch
  else
    let tally := h.replayFrom p watch 0 h.cases {}
    let count := Double.ofNat h.cases.length
    { correctness := Double.ofNat tally.passed / count
      performance := tally.shares / count
      timeouts := tally.timeouts
      failures := tally.failures
      cancelled := tally.cancelled }

end Harness

end ProgramBreeding

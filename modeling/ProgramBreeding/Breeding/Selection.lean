import ProgramBreeding.Breeding.Variant
import ProgramBreeding.Chance

/-!
# Selection

Which candidates become parents.  Those with higher totals are preferred, either
because they win tournaments or because the chance of each is its total.

## Main definitions

* `SelectionSettings` — how parents are chosen.
* `uniform` — a position, all of them equally likely, with one left out or none.
* `tournament`, `roulette` — the two ways of choosing.
* `select`, `selectTwo` — parents for a whole population and for one child.
* `elite` — the best candidates.
* `Summary` — mean, extrema and deviation of totals.
-/

namespace ProgramBreeding

open Chance

/-- The ways of choosing parents. -/
inductive Strategy where
  | tournament
  | roulette
  deriving DecidableEq, Repr

/-- All ways of choosing parents. -/
def Strategy.all : List Strategy := [.tournament, .roulette]

/-- The name of a way of choosing parents. -/
def Strategy.id : Strategy → String
  | .tournament => "tournament"
  | .roulette => "roulette"

/-- The way of choosing parents with a name. -/
def Strategy.ofId? (id : String) : Option Strategy :=
  Strategy.all.find? fun strategy => strategy.id == id

/-- How parents are chosen. -/
structure SelectionSettings where
  strategy : Strategy := .tournament
  /-- The number of candidates in a tournament. -/
  tournamentSize : Nat := 3
  /-- The number of candidates that the next generation takes over as they are. -/
  eliteCount : Nat := 0

/-- Refuses tournaments without candidates. -/
def SelectionSettings.check (settings : SelectionSettings) : Except String Unit :=
  if settings.strategy = .tournament && settings.tournamentSize = 0 then
    .error "tournament size must be at least 1"
  else .ok ()

section

variable {G : Type} [RandomSource G]

/-! ### One position -/

/-- A position less than `size`, all of them equally likely; `excluded` is left out. -/
def uniform (size : Nat) (excluded : Option Nat) : Draw G (Option Nat) := do
  match excluded.filter fun skipped => skipped < size with
  | some skipped =>
    if size < 2 then return none
    else
      let i ← below (size - 1)
      return some (if skipped ≤ i then i + 1 else i)
  | none => if size = 0 then return none else return some (← below size)

/-- The total at a position. -/
def totalAt (totals : List Double) (i : Nat) : Double := (totals[i]?).getD 0.0

/-- The best of a position and those of so many more draws; the first of the best. -/
def challenge (totals : List Double) (excluded : Option Nat) : Nat → Nat → Draw G Nat
  | 0, best => return best
  | rounds + 1, best => do
    match ← uniform totals.length excluded with
    | some i =>
      challenge totals excluded rounds
        (if totalAt totals best < totalAt totals i then i else best)
    | none => return best

/-- The best position of `size` draws, which are at least one. -/
def tournament (totals : List Double) (size : Nat) (excluded : Option Nat) :
    Draw G (Option Nat) := do
  match ← uniform totals.length excluded with
  | some first => return some (← challenge totals excluded (size - 1) first)
  | none => return none

/-- The shares of positions in a draw by totals. -/
def shares (totals : List Double) (excluded : Option Nat) : List Double :=
  totals.zipIdx.map fun (total, i) =>
    if some i == excluded || !total.isFinite || total ≤ 0.0 then 0.0 else total

/-- The position whose share `pick` falls into, counted from `i`; `last` is the last
position with a share, in case rounding leaves something after it. -/
def bucket : List Double → Nat → Double → Option Nat → Option Nat
  | [], _, _, last => last
  | share :: rest, i, pick, last =>
    if share ≤ 0.0 then bucket rest (i + 1) pick last
    else if pick < share then some i
    else bucket rest (i + 1) (pick - share) (some i)

/-- A position with the chance of each in proportion to its total.  If there is no
positive total, all of them are equally likely. -/
def roulette (totals : List Double) (excluded : Option Nat) : Draw G (Option Nat) := do
  let shares := shares totals excluded
  let sum := Number.sum shares
  if sum ≤ 0.0 then uniform totals.length excluded
  else return bucket shares 0 (← realBelow sum) none

/-- A position chosen as the settings say. -/
def drawPosition (settings : SelectionSettings) (totals : List Double) (excluded : Option Nat) :
    Draw G (Option Nat) :=
  match settings.strategy with
  | .tournament => tournament totals settings.tournamentSize excluded
  | .roulette => roulette totals excluded

/-! ### Populations -/

/-- Some draws of a position. -/
def drawPositions (settings : SelectionSettings) (totals : List Double) : Nat → Draw G (List Nat)
  | 0 => return []
  | count + 1 => do
    let i ← drawPosition settings totals none
    let rest ← drawPositions settings totals count
    return i.toList ++ rest

/-- As many parents as there are candidates, with repetitions. -/
def select (settings : SelectionSettings) (population : List Variant) : Draw G (List Variant) := do
  let positions ← drawPositions settings (population.map Variant.total) population.length
  return positions.filterMap fun i => population[i]?

/-- The positions of two parents, different ones if there are two candidates. -/
def drawTwo (settings : SelectionSettings) (totals : List Double) :
    Draw G (Option (Nat × Nat)) := do
  match ← drawPosition settings totals none with
  | none => return none
  | some first =>
    let excluded := if totals.length > 1 then some first else none
    match ← drawPosition settings totals excluded with
    | none => return none
    | some second => return some (first, second)

/-- Two parents; there are none in an empty population. -/
def selectTwo (settings : SelectionSettings) (population : List Variant) :
    Draw G (Option (Variant × Variant)) := do
  match ← drawTwo settings (population.map Variant.total) with
  | none => return none
  | some (i, j) =>
    match population[i]?, population[j]? with
    | some a, some b => return some (a, b)
    | _, _ => return none

end

/-- Whether one total is at least as high as another. -/
def atLeast (a b : Double) : Bool := Number.totalKey b ≤ Number.totalKey a

/-- Candidates with the highest total first; equal ones keep their order. -/
def bestFirst (population : List Variant) : List Variant :=
  population.mergeSort fun a b => atLeast a.total b.total

/-- The best candidates, the best first. -/
def elite (population : List Variant) (count : Nat) : List Variant :=
  (bestFirst population).take count

/-! ### Summaries -/

/-- Mean, extrema and standard deviation of totals. -/
structure Summary where
  mean : Double
  best : Double
  worst : Double
  deviation : Double

/-- The summary of some totals; all zeros if there are none. -/
def Summary.ofTotals (totals : List Double) : Summary :=
  if totals.isEmpty then ⟨0.0, 0.0, 0.0, 0.0⟩
  else
    let count := Double.ofNat totals.length
    let mean := Number.sum totals / count
    let variance := Number.sum (totals.map fun x => (x - mean) * (x - mean)) / count
    ⟨mean, Number.greatest totals, Number.least totals, variance.sqrt⟩

/-- The summary of a population. -/
def Summary.ofPopulation (population : List Variant) : Summary :=
  Summary.ofTotals (population.map Variant.total)

end ProgramBreeding

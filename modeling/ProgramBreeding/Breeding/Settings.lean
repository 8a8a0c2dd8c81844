import ProgramBreeding.Breeding.Evolution
import ProgramBreeding.Json.Reader

/-!
# Reading settings

Settings are given as JSON.  What is missing has its default, and what is unknown is
skipped: it must have the form of a value, and nothing else about it matters.
Everything else must be of the right kind, or there are no settings at all.

## Main definitions

* `Json.record?` — the fields of an object, or of an array in the order of the fields.
* `MutationSettings.outline` and so on — which fields settings have.
* `MutationSettings.ofJson?` and so on — settings read from JSON.
* `EvolutionSettings.read` — all settings of a run read from a text.
-/

namespace ProgramBreeding

namespace Json

/-- Whether some name is that of two fields. -/
def repeatsName (names : List String) (fields : List (String × Json)) : Bool :=
  names.any fun name => 1 < (fields.filter fun field => field.1 == name).length

/-- The fields of a record with the given outline.  It is an object that gives none of
them twice, or an array of the first of them in their order. -/
def record? (outline : Outline) : Json → Option (List (String × Json))
  | .obj fields => if repeatsName outline.names fields then none else some fields
  | .arr items =>
    if outline.names.length < items.length then none else some (outline.names.zip items)
  | _ => none

/-- A field of a record, or its default if it is missing. -/
def fieldOr {α : Type} (fields : List (String × Json)) (name : String)
    (read : Json → Option α) (default : α) : Option α :=
  match fields.lookup name with
  | some json => read json
  | none => some default

/-- A natural number that fits in a word. -/
def natural? : Json → Option Nat
  | .int n => if 0 ≤ n ∧ n < UInt64.size then some n.toNat else none
  | _ => none

/-- A word. -/
def word? (json : Json) : Option UInt64 := json.natural?.map Nat.toUInt64

/-- A double; a whole number counts as one. -/
def real? : Json → Option Double
  | .int n => some (.ofInt n)
  | .float x => some x
  | _ => none

/-- A name out of some. -/
def choice? {α : Type} (ofId? : String → Option α) : Json → Option α
  | .str id => ofId? id
  | .obj [(id, .null)] => ofId? id
  | _ => none

/-- Names out of some. -/
def choices? {α : Type} (ofId? : String → Option α) : Json → Option (List α)
  | .arr items => items.mapM (choice? ofId?)
  | _ => none

end Json

open Json

/-- The fields of weights. -/
def Weights.outline : Outline := .flat ["correctness", "performance", "readability"]

/-- Weights read from JSON. -/
def Weights.ofJson? (json : Json) : Option Weights := do
  let default : Weights := {}
  let fields ← json.record? Weights.outline
  return {
    correctness := ← fieldOr fields "correctness" real? default.correctness
    performance := ← fieldOr fields "performance" real? default.performance
    readability := ← fieldOr fields "readability" real? default.readability }

/-- The fields of settings of test cases. -/
def HarnessSettings.outline : Outline :=
  .flat ["cases_per_function", "seed", "max_list_len", "reference_fuel", "min_fuel",
    "fuel_multiplier", "case_timeout_ms"]

/-- Settings of test cases read from JSON. -/
def HarnessSettings.ofJson? (json : Json) : Option HarnessSettings := do
  let default : HarnessSettings := {}
  let fields ← json.record? HarnessSettings.outline
  return {
    casesPerFunction := ← fieldOr fields "cases_per_function" natural? default.casesPerFunction
    seed := ← fieldOr fields "seed" word? default.seed
    maxListLength := ← fieldOr fields "max_list_len" natural? default.maxListLength
    referenceFuel := ← fieldOr fields "reference_fuel" word? default.referenceFuel
    minFuel := ← fieldOr fields "min_fuel" word? default.minFuel
    fuelMultiplier := ← fieldOr fields "fuel_multiplier" word? default.fuelMultiplier
    caseTimeout := ← fieldOr fields "case_timeout_ms" word? default.caseTimeout }

/-- The fields of settings of fitness. -/
def FitnessSettings.outline : Outline :=
  .record [("weights", Weights.outline), ("harness", HarnessSettings.outline)]

/-- Settings of fitness read from JSON. -/
def FitnessSettings.ofJson? (json : Json) : Option FitnessSettings := do
  let default : FitnessSettings := {}
  let fields ← json.record? FitnessSettings.outline
  return {
    weights := ← fieldOr fields "weights" Weights.ofJson? default.weights
    harness := ← fieldOr fields "harness" HarnessSettings.ofJson? default.harness }

/-- The fields of settings of selection. -/
def SelectionSettings.outline : Outline :=
  .flat ["strategy", "tournament_size", "elite_count"]

/-- Settings of selection read from JSON. -/
def SelectionSettings.ofJson? (json : Json) : Option SelectionSettings := do
  let default : SelectionSettings := {}
  let fields ← json.record? SelectionSettings.outline
  return {
    strategy := ← fieldOr fields "strategy" (choice? Strategy.ofId?) default.strategy
    tournamentSize := ← fieldOr fields "tournament_size" natural? default.tournamentSize
    eliteCount := ← fieldOr fields "elite_count" natural? default.eliteCount }

/-- The fields of settings of crossover. -/
def CrossoverSettings.outline : Outline := .flat ["rate", "function_bias"]

/-- Settings of crossover read from JSON. -/
def CrossoverSettings.ofJson? (json : Json) : Option CrossoverSettings := do
  let default : CrossoverSettings := {}
  let fields ← json.record? CrossoverSettings.outline
  return {
    rate := ← fieldOr fields "rate" real? default.rate
    functionBias := ← fieldOr fields "function_bias" real? default.functionBias }

/-- The fields of settings of mutation. -/
def MutationSettings.outline : Outline := .flat ["rate", "kinds"]

/-- Settings of mutation read from JSON. -/
def MutationSettings.ofJson? (json : Json) : Option MutationSettings := do
  let default : MutationSettings := {}
  let fields ← json.record? MutationSettings.outline
  return {
    rate := ← fieldOr fields "rate" real? default.rate
    rules := ← fieldOr fields "kinds" (choices? Rule.ofId?) default.rules }

/-- The fields of all settings of a run. -/
def EvolutionSettings.outline : Outline :=
  .record [("population_size", .whole), ("generations", .whole), ("seed", .whole),
    ("patience", .whole), ("workers", .whole), ("fitness", FitnessSettings.outline),
    ("selection", SelectionSettings.outline), ("crossover", CrossoverSettings.outline),
    ("mutation", MutationSettings.outline)]

/-- All settings of a run read from JSON. -/
def EvolutionSettings.ofJson? (json : Json) : Option EvolutionSettings := do
  let default : EvolutionSettings := {}
  let fields ← json.record? EvolutionSettings.outline
  return {
    populationSize := ← fieldOr fields "population_size" natural? default.populationSize
    generations := ← fieldOr fields "generations" natural? default.generations
    seed := ← fieldOr fields "seed" word? default.seed
    patience := ← fieldOr fields "patience" natural? default.patience
    workers := ← fieldOr fields "workers" natural? default.workers
    fitness := ← fieldOr fields "fitness" FitnessSettings.ofJson? default.fitness
    selection := ← fieldOr fields "selection" SelectionSettings.ofJson? default.selection
    crossover := ← fieldOr fields "crossover" CrossoverSettings.ofJson? default.crossover
    mutation := ← fieldOr fields "mutation" MutationSettings.ofJson? default.mutation }

/-- All settings of a run read from a text. -/
def EvolutionSettings.read (text : String) : Option EvolutionSettings :=
  (Json.readUnder EvolutionSettings.outline text).bind EvolutionSettings.ofJson?

end ProgramBreeding

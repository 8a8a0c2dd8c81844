import ProgramBreeding.Breeding.Crossover
import ProgramBreeding.Breeding.Fitness
import ProgramBreeding.Breeding.Mutation
import ProgramBreeding.Breeding.Selection

/-!
# Evolution

A population that starts with one program and its mutants is judged and bred anew,
generation by generation.

## Main definitions

* `EvolutionSettings` — all settings, with `EvolutionSettings.check`.
* `Evolution.prepare` — a run for a program, or why there cannot be one.
* `Surroundings` — what happens around a run.
* `Evolution.breed` — the next generation.
* `Evolution.runWith` — a run with an observer.
* `Evolution.run` — the outcome of a run.

## Design notes

The score of a text is looked up if the text has been judged before.  A run looks at
the cancel flag at certain moments only; `Surroundings` says what it finds, so that
cancellations at any time can be spoken of.  A generation during which the run was
cancelled is thrown away.

Candidates are judged independently of each other, so it does not matter how many threads
judge them; that threads cannot be had is not spoken of.
-/

namespace ProgramBreeding

open Chance

/-- All settings of a run. -/
structure EvolutionSettings where
  populationSize : Nat := 100
  /-- The greatest number of generations. -/
  generations : Nat := 50
  seed : UInt64 := 42
  /-- The number of generations without progress that end a run; zero for no such
  end. -/
  patience : Nat := 10
  /-- The number of threads, which does not change any outcome. -/
  workers : Nat := 0
  fitness : FitnessSettings := {}
  selection : SelectionSettings := {}
  crossover : CrossoverSettings := {}
  mutation : MutationSettings := {}

/-- Refuses a value that is not a probability. -/
def checkProbability (name : String) (value : Double) : Except String Unit :=
  if 0.0 ≤ value && value ≤ 1.0 then .ok ()
  else .error (name ++ " must be in [0, 1], got " ++ Number.plainLayout.write value)

/-- Refuses settings with which there cannot be a run. -/
def EvolutionSettings.check (settings : EvolutionSettings) : Except String Unit := do
  if settings.populationSize = 0 then throw "population size must be at least 1"
  if settings.generations = 0 then throw "generation count must be at least 1"
  checkProbability "crossover rate" settings.crossover.rate
  checkProbability "crossover function bias" settings.crossover.functionBias
  settings.mutation.check
  settings.selection.check
  settings.fitness.weights.check

/-- Why there cannot be a run. -/
inductive EvolutionError where
  /-- The text is not a program. -/
  | parse (error : Source.ParseError)
  /-- The settings are refused. -/
  | invalidSettings (reason : String)

/-- The wording of an error. -/
def EvolutionError.message : EvolutionError → String
  | .parse error => "seed program does not parse: " ++ error.display
  | .invalidSettings reason => "invalid configuration: " ++ reason

/-- Why a run came to its end. -/
inductive Termination where
  | generationLimit
  | perfectScore
  | stagnation
  | cancelled
  deriving DecidableEq, Repr

/-- The name of the end of a run. -/
def Termination.id : Termination → String
  | .generationLimit => "generation_limit"
  | .perfectScore => "perfect_score"
  | .stagnation => "stagnation"
  | .cancelled => "cancelled"

/-- Where a run stands. -/
inductive Phase where
  | initialized
  | terminated
  deriving DecidableEq, Repr

/-- The name of a phase. -/
def Phase.id : Phase → String
  | .initialized => "initialized"
  | .terminated => "terminated"

/-- What is known about a generation. -/
structure GenerationStats where
  generation : Nat
  summary : Summary
  /-- The highest total of this and all earlier generations and of the first program. -/
  bestEver : Double

/-- The outcome of a run. -/
structure Outcome where
  /-- The best candidate of all generations. -/
  best : Variant
  /-- The score of the first program. -/
  seedScore : Score
  /-- The last generation that was judged, the best candidates first. -/
  population : List Variant
  /-- The number of generations that were judged. -/
  generations : Nat
  stats : List GenerationStats
  termination : Termination

/-! ### What happens around a run -/

/-- The moments at which a run looks at the cancel flag or the clock. -/
inductive Moment where
  /-- While a case of the first program is run, after so much fuel. -/
  | judgingSeed (case : Nat) (used : UInt64)
  /-- After the first program was judged. -/
  | seedJudged
  /-- Before a generation is judged. -/
  | before (generation : Nat)
  /-- While a case of a candidate of a generation is run, after so much fuel. -/
  | judging (generation candidate case : Nat) (used : UInt64)
  /-- After all candidates of a generation were judged. -/
  | judged (generation : Nat)

/-- What a run finds when it looks at the cancel flag and the clock. -/
structure Surroundings where
  cancelled : Moment → Bool := fun _ => false
  /-- Whether the time limit of a case is over, if it is not zero. -/
  late : Moment → Bool := fun _ => false

/-- What the cases of the first program find. -/
def Surroundings.atSeed (around : Surroundings) : Watch where
  cancelled := fun case used => around.cancelled (.judgingSeed case used)
  late := fun case used => around.late (.judgingSeed case used)

/-- What the cases of a candidate find. -/
def Surroundings.atCandidate (around : Surroundings) (generation candidate : Nat) : Watch where
  cancelled := fun case used => around.cancelled (.judging generation candidate case used)
  late := fun case used => around.late (.judging generation candidate case used)

/-! ### Generations -/

/-- The scores of texts that were judged before. -/
abbrev Memo := List (String × Score)

/-- The score of a text that was judged before. -/
def Memo.score? (memo : Memo) (source : String) : Option Score := memo.lookup source

/-- The memo with the score of one more candidate; what is there already stays. -/
def Memo.insert (memo : Memo) (v : Variant) : Memo :=
  match v.score, memo.score? v.source with
  | some score, none => (v.source, score) :: memo
  | _, _ => memo

/-- The memo with the scores of some candidates. -/
def Memo.learn (memo : Memo) (population : List Variant) : Memo := population.foldl insert memo

/-- A candidate with its score: the one it has, or the one its text got before, or a new
one. -/
def Judge.judge (judge : Judge) (memo : Memo) (watch : Watch) (v : Variant) : Variant :=
  match v.score with
  | some _ => v
  | none =>
    match memo.score? v.source with
    | some score => v.judged score
    | none => v.judged (judge.score watch v)

/-- A generation with the scores of all candidates. -/
def Judge.judgeAll (judge : Judge) (memo : Memo) (around : Surroundings) (generation : Nat)
    (population : List Variant) : List Variant :=
  population.zipIdx.map fun (v, i) => judge.judge memo (around.atCandidate generation i) v

/-- The first of those with one text; `seen` are texts that have come before. -/
def distinctTexts (seen : List String) : List Variant → List Variant
  | [] => []
  | v :: rest =>
    if seen.contains v.source then distinctTexts seen rest
    else v :: distinctTexts (v.source :: seen) rest

/-- The candidate with the highest total, the last of them if there are several. -/
def leader? (population : List Variant) : Option Variant :=
  population.foldl
    (fun best v =>
      match best with
      | none => some v
      | some b => if atLeast v.total b.total then some v else some b)
    none

/-- What a run has come to. -/
structure Progress where
  /-- The number of generations that were judged. -/
  generation : Nat
  /-- The generation to be judged next. -/
  population : List Variant
  /-- The last generation that was judged. -/
  judged : List Variant
  best : Variant
  memo : Memo
  stats : List GenerationStats
  /-- The number of generations since the last progress. -/
  stagnant : Nat

/-- Where a run starts, when its first program has been judged. -/
def Progress.start (seed : Variant) (others : List Variant) : Progress where
  generation := 0
  population := seed :: others
  judged := [seed]
  best := seed
  memo := Memo.learn [] [seed]
  stats := []
  stagnant := 0

/-- The progress after a generation was judged. -/
def Progress.record (p : Progress) (judged : List Variant) : Progress :=
  let (best, stagnant) :=
    match leader? judged with
    | none => (p.best, p.stagnant)
    | some leader =>
      if p.best.total < leader.total then (leader, 0)
      else (p.best, if p.generation = 0 then p.stagnant else p.stagnant + 1)
  { generation := p.generation + 1
    population := judged
    judged := judged
    best := best
    memo := Memo.learn p.memo judged
    stats := p.stats ++ [⟨p.generation, Summary.ofPopulation judged, best.total⟩]
    stagnant := stagnant }

/-- What becomes known about a generation when it has been judged. -/
def Progress.news (p : Progress) (judged : List Variant) : GenerationStats where
  generation := p.generation
  summary := Summary.ofPopulation judged
  bestEver := (p.record judged).best.total

theorem Progress.record_stats (p : Progress) (judged : List Variant) :
    (p.record judged).stats = p.stats ++ [p.news judged] := rfl

/-- Why a run ends after a generation was judged, if it does. -/
def Progress.verdict? (settings : EvolutionSettings) (p : Progress) : Option Termination :=
  if 1.0 ≤ p.best.total then some .perfectScore
  else if 0 < settings.patience && settings.patience ≤ p.stagnant then some .stagnation
  else if settings.generations ≤ p.generation then some .generationLimit
  else none

/-! ### Runs -/

/-- A run for a program. -/
structure Evolution where
  seed : Variant
  settings : EvolutionSettings
  phase : Phase := .initialized

namespace Evolution

/-- A run for a text, or why there cannot be one. -/
def prepare (source : String) (settings : EvolutionSettings) :
    Except EvolutionError Evolution := do
  match settings.check with
  | .error reason => throw (.invalidSettings reason)
  | .ok _ =>
    match treeOf source with
    | .error error => throw (.parse error)
    | .ok _ => return { seed := ⟨source, none⟩, settings := settings }

section

variable {G : Type} [RandomSource G]

/-- The parents of a generation, one for each text. -/
def matingPool (settings : SelectionSettings) (population : List Variant) :
    Draw G (List Variant) := do
  return distinctTexts [] (← select settings population)

/-- A child before mutation; there is none without parents. -/
def child? (settings : EvolutionSettings) (parents : List Variant) : Draw G (Option Variant) := do
  match ← selectTwo settings.selection parents with
  | none => return none
  | some (a, b) =>
    if ← chance settings.crossover.rate then return some (← crossover settings.crossover a b)
    else return some a.offspring

/-- Children before mutation, at most so many. -/
def children (settings : EvolutionSettings) (parents : List Variant) : Nat → Draw G (List Variant)
  | 0 => return []
  | count + 1 => do
    match ← child? settings parents with
    | none => return []
    | some child => return child :: (← children settings parents count)

/-- Candidates after mutation. -/
def mutateAll (m : Mutator) : List Variant → Draw G (List Variant)
  | [] => return []
  | v :: rest => do
    let v ← m.mutate v
    return v :: (← mutateAll m rest)

/-- The generation after one that was judged: mutated children, then the best
candidates as they are. -/
def breed (settings : EvolutionSettings) (m : Mutator) (population : List Variant) :
    Draw G (List Variant) := do
  let parents ← matingPool settings.selection population
  let elites := elite population (min settings.selection.eliteCount settings.populationSize)
  let unborn ← children settings parents (settings.populationSize - elites.length)
  return (← mutateAll m unborn) ++ elites

/-- So many mutants of a candidate. -/
def mutants (m : Mutator) (v : Variant) : Nat → Draw G (List Variant)
  | 0 => return []
  | count + 1 => do
    let mutant ← m.mutate v
    return mutant :: (← mutants m v count)

/-- Generations up to the end of the run, at most so many.  The statistics of each are shown to an observer. -/
def generationsFrom {σ : Type} (observer : σ → GenerationStats → σ) (settings : EvolutionSettings)
    (judge : Judge) (m : Mutator) (around : Surroundings) :
    Nat → σ → Progress → Draw G (σ × Progress × Termination)
  | 0, s, p => return (s, p, .generationLimit)
  | remaining + 1, s, p => do
    if around.cancelled (.before p.generation) then return (s, p, .cancelled)
    let judged := judge.judgeAll p.memo around p.generation p.population
    if around.cancelled (.judged p.generation) then return (s, p, .cancelled)
    let s := observer s (p.news judged)
    let p := p.record judged
    match p.verdict? settings with
    | some termination => return (s, p, termination)
    | none =>
      let next ← breed settings m p.population
      generationsFrom observer settings judge m around remaining s { p with population := next }

/-- The first generation and all after it. -/
def evolveFrom {σ : Type} (observer : σ → GenerationStats → σ) (s : σ) (settings : EvolutionSettings)
    (judge : Judge) (around : Surroundings) (seed : Variant) : Draw G (σ × Progress × Termination) := do
  let m := Mutator.ofSettings settings.mutation
  let others ← mutants m seed (settings.populationSize - 1)
  generationsFrom observer settings judge m around settings.generations s (.start seed others)

end

/-- The outcome of a run that was cancelled while the first program was judged. -/
def abandoned (seed : Variant) : Outcome where
  best := seed.offspring
  seedScore := .zero
  population := [seed.offspring]
  generations := 0
  stats := []
  termination := .cancelled

/-- What an observer of a run comes to, and the outcome, for a program whose tree is given. -/
def outcomeWith {σ : Type} (G : Type) [RandomSource G] (e : Evolution) (observer : σ → GenerationStats → σ)
    (s : σ) (around : Surroundings) (t : Tree) : σ × Outcome :=
  let judge := Judge.ofReference G e.settings.fitness t
  let score := judge.score around.atSeed e.seed
  if around.cancelled .seedJudged then (s, abandoned e.seed)
  else
    let act := evolveFrom observer s e.settings judge around (e.seed.judged score)
    let ((s, p, termination), _) := act (RandomSource.ofSeed e.settings.seed : G)
    (s, { best := p.best
          seedScore := score
          population := bestFirst p.judged
          generations := p.generation
          stats := p.stats
          termination := termination })

/-- What an observer of a run comes to, the outcome of the run, and the run after it. -/
def runWith {σ : Type} (G : Type) [RandomSource G] (e : Evolution) (observer : σ → GenerationStats → σ) (s : σ)
    (around : Surroundings) : σ × Except EvolutionError (Outcome × Evolution) :=
  match e.seed.tree? with
  | .error error => (s, .error (.parse error))
  | .ok t =>
    let (s, outcome) := e.outcomeWith G observer s around t
    (s, .ok (outcome, { e with phase := .terminated }))

/-- The outcome of a run that nobody observes, and the run after it. -/
def run (G : Type) [RandomSource G] (e : Evolution) (around : Surroundings) :
    Except EvolutionError (Outcome × Evolution) :=
  (e.runWith G (fun _ _ => ()) () around).2

end Evolution

end ProgramBreeding

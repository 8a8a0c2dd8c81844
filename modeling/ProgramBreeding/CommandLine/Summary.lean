import ProgramBreeding.Breeding.Evolution
import ProgramBreeding.Json.Writer

/-!
# The outcome of a run in words

## Main definitions

* `outcomeText` — for readers.
* `outcomeJson` — for programs.
-/

namespace ProgramBreeding.CommandLine

/-! ### Text -/

/-- The end of a run in words. -/
def terminationText : Termination → String
  | .generationLimit => "generation limit reached"
  | .perfectScore => "perfect score reached"
  | .stagnation => "no improvement within patience"
  | .cancelled => "cancelled"

/-- A line with a score. -/
def scoreLine (label : String) (score : Score) : String :=
  "  " ++ label ++ ": " ++ Number.fixedPlaces 4 score.total ++
    " (correctness " ++ Number.fixedPlaces 3 score.correctness ++
    ", performance " ++ Number.fixedPlaces 3 score.performance ++
    ", readability " ++ Number.fixedPlaces 3 score.readability ++ ")\n"

/-- The lines with the mean totals of the first and the last generation. -/
def meanLines (stats : List GenerationStats) : String :=
  match stats.head?, stats.getLast? with
  | some first, some last =>
    "\nMean score: " ++ Number.fixedPlaces 4 first.summary.mean ++ " -> " ++
      Number.fixedPlaces 4 last.summary.mean ++ "\n"
  | _, _ => ""

/-- A text that ends with a line break. -/
def endLine (text : String) : String :=
  if Text.endsWith text "\n" then text else text ++ "\n"

/-- A rank, at least two characters wide. -/
def rankText (rank : Nat) : String :=
  let ds := Number.digits rank
  String.ofList (List.replicate (2 - ds.length) ' ') ++ ds

/-- A line with the rank, the total and the length of a candidate. -/
def rankLine (rank : Nat) (v : Variant) : String :=
  "  " ++ rankText rank ++ ". " ++ Number.fixedPlaces 4 v.total ++ " (" ++
    Number.digits (linesOf v.source).length ++ " lines)\n"

/-- The lines with the first candidates of the last generation. -/
def topLines (top : Nat) (population : List Variant) : String :=
  if top = 0 then ""
  else
    "\nTop " ++ Number.digits top ++ " of final population:\n" ++
      String.join ((population.take top).zipIdx.map fun (v, i) => rankLine (i + 1) v)

/-- An outcome for readers. -/
def outcomeText (o : Outcome) (top : Nat) : String :=
  "Evolution Results (" ++ Number.digits o.generations ++ " generations, " ++
    terminationText o.termination ++ ")\n" ++
    "========================================\n\n" ++
    "Scores:\n" ++
    scoreLine "Seed" o.seedScore ++
    (match o.best.score with
      | some score => scoreLine "Best" score
      | none => "  Best: unscored\n") ++
    meanLines o.stats ++
    "\nBest variant:\n" ++
    "----------------------------------------\n" ++
    endLine o.best.source ++
    "----------------------------------------\n" ++
    topLines top o.population

/-! ### JSON -/

/-- A score for programs. -/
def scoreJson (s : Score) : Json :=
  .obj [("correctness", .float s.correctness), ("performance", .float s.performance),
    ("readability", .float s.readability), ("total_score", .float s.total)]

/-- A candidate for programs. -/
def variantJson (v : Variant) : Json :=
  .obj [("source", .str v.source), ("score", (v.score.map scoreJson).getD .null)]

/-- A generation for programs. -/
def statsJson (s : GenerationStats) : Json :=
  .obj [("generation", .int s.generation), ("best", .float s.summary.best),
    ("mean", .float s.summary.mean), ("worst", .float s.summary.worst),
    ("std", .float s.summary.deviation), ("best_ever", .float s.bestEver)]

/-- An outcome for programs. -/
def outcomeJson (o : Outcome) (top : Nat) : Json :=
  .obj [("termination", .str o.termination.id), ("generations_run", .int o.generations),
    ("seed_score", scoreJson o.seedScore), ("best", variantJson o.best),
    ("top", .arr ((o.population.take top).map variantJson)),
    ("stats", .arr (o.stats.map statsJson))]

end ProgramBreeding.CommandLine

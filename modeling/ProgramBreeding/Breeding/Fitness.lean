import ProgramBreeding.Breeding.Harness
import ProgramBreeding.Breeding.Variant
import ProgramBreeding.Text.Search

/-!
# Judging candidates

## Main definitions

* `FitnessSettings` — the weights and how test cases are made.
* `readability` — small size, little nesting and short lines.
* `Judge` — test cases and weights.
* `Judge.score` — the score of a candidate.
-/

namespace ProgramBreeding

/-- How candidates are judged. -/
structure FitnessSettings where
  weights : Weights := {}
  harness : HarnessSettings := {}

/-- The greatest length of a line that reads well. -/
def maxLineLength : Nat := 79

/-- The lines of a text without their ends, of which a line feed may follow a carriage
return.  A text that ends with a line feed has no empty line after it. -/
def linesOf (text : String) : List String :=
  match (Text.splitAt "\n" text).reverse with
  | [] => []
  | last :: rest =>
    let lines := rest.reverse.map fun line =>
      if Text.endsWith line "\r" then String.ofList line.toList.dropLast else line
    if last.isEmpty then lines else lines ++ [last]

/-- The share of short lines among those that are not blank. -/
def shortLines (source : String) : Double :=
  let lines := (linesOf source).filter fun line => !(Text.trim line).isEmpty
  if lines.isEmpty then 1.0
  else
    let short := lines.filter fun line => line.length ≤ maxLineLength
    Double.ofNat short.length / Double.ofNat lines.length

/-- How well a text and its tree read. -/
def readability (source : String) (t : Tree) : Double :=
  let size := 1.0 / (1.0 + Double.ofNat t.size / 64.0)
  let depth := 1.0 / (1.0 + 0.25 * Double.ofNat (Block.depth t.body - 1))
  Number.clampUnit (0.4 * size + 0.4 * depth + 0.2 * shortLines source)

/-- What candidates are judged by. -/
structure Judge where
  harness : Harness
  weights : Weights

namespace Judge

/-- The judge that compares candidates with a program. -/
def ofReference (G : Type) [Chance.RandomSource G] (settings : FitnessSettings) (t : Tree) : Judge :=
  ⟨Harness.record G settings.harness t, settings.weights⟩

/-- The score of a candidate. -/
def score (judge : Judge) (watch : Watch) (v : Variant) : Score :=
  match v.tree? with
  | .error _ => .zero
  | .ok t =>
    let report := judge.harness.replay t watch
    .ofAxes judge.weights report.correctness report.performance (readability v.source t)

end Judge

end ProgramBreeding

import ProgramBreeding.Number.Real

/-!
# Scores

A candidate is judged along three axes, which are combined by weights.

## Main definitions

* `Weights` — the relative weights of the axes, with `Weights.check`.
* `Weights.combine` — the weighted mean, within the unit interval.
* `Score` — the three axes and the total.
* `Score.ofAxes` — the score of three axes.
* `Score.withTotal` — a score with another total.
-/

namespace ProgramBreeding

/-- The relative weights of the axes. -/
structure Weights where
  correctness : Double := 0.5
  performance : Double := 0.3
  readability : Double := 0.2

namespace Weights

/-- The weights in the order of the axes. -/
def toList (w : Weights) : List Double := [w.correctness, w.performance, w.readability]

/-- Refuses weights that are negative or not finite, or all zero. -/
def check (w : Weights) : Except String Unit :=
  if w.toList.any fun x => !x.isFinite || x < 0.0 then
    .error "fitness weights must be finite and non-negative"
  else if Number.sum w.toList ≤ 0.0 then
    .error "at least one fitness weight must be positive"
  else .ok ()

/-- The weighted mean of three axes; zero if the weights have no positive finite sum. -/
def combine (w : Weights) (correctness performance readability : Double) : Double :=
  let sum := w.correctness + w.performance + w.readability
  if sum ≤ 0.0 || !sum.isFinite then 0.0
  else
    let total := w.correctness * correctness + w.performance * performance +
      w.readability * readability
    Number.clampUnit (total / sum)

end Weights

/-- The judgement of a candidate. -/
structure Score where
  correctness : Double
  performance : Double
  readability : Double
  total : Double

namespace Score

/-- The score of three axes, which are moved into the unit interval first. -/
def ofAxes (w : Weights) (correctness performance readability : Double) : Score :=
  let correctness := Number.clampUnit correctness
  let performance := Number.clampUnit performance
  let readability := Number.clampUnit readability
  ⟨correctness, performance, readability, w.combine correctness performance readability⟩

/-- The score of a text that is not a program. -/
def zero : Score := ⟨0.0, 0.0, 0.0, 0.0⟩

/-- A score with another total. -/
def withTotal (s : Score) (total : Double) : Score := { s with total := Number.clampUnit total }

end Score

end ProgramBreeding

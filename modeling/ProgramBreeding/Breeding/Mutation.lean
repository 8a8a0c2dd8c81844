import ProgramBreeding.Breeding.Variant
import ProgramBreeding.Number.Layout
import ProgramBreeding.Chance
import ProgramBreeding.Rule.Application

/-!
# Mutation

Every rule that is switched on gets its chance, one after the other.  A rule that
is lucky is applied at one of the nodes where it matches, all of them equally likely.

## Main definitions

* `MutationSettings` — how likely rules are and which are switched on.
* `Mutator` — what the settings come down to.
* `Mutator.mutateTree` — a mutated tree, if anything was changed.
* `Mutator.mutate` — a mutated candidate.
-/

namespace ProgramBreeding

open Chance

/-- How candidates are mutated. -/
structure MutationSettings where
  /-- The probability that a rule is tried. -/
  rate : Double := 0.1
  /-- The rules that are switched on, in any order. -/
  rules : List Rule := Rule.all

/-- Refuses a rate that is not a probability. -/
def MutationSettings.check (settings : MutationSettings) : Except String Unit :=
  if 0.0 ≤ settings.rate && settings.rate ≤ 1.0 then .ok ()
  else
    .error ("mutation rate must be in [0, 1], got " ++
      Number.plainLayout.write settings.rate)

/-- What mutation settings come down to. -/
structure Mutator where
  /-- The probability that a rule is tried, within the unit interval. -/
  rate : Double
  /-- The rules that are tried, in the order of `Rule.all`. -/
  rules : List Rule

namespace Mutator

/-- The mutator of some settings.  A rate that is not finite switches mutation off. -/
def ofSettings (settings : MutationSettings) : Mutator where
  rate := if settings.rate.isFinite then Number.clampUnit settings.rate else 0.0
  rules := Rule.all.filter settings.rules.contains

variable {G : Type} [RandomSource G]

/-- The tree that a rule makes at a random site, if there is any. -/
def applySomewhere (rule : Rule) (t : Tree) : Draw G (Option Tree) := do
  let sites := rule.sites t
  if sites.isEmpty then return none
  else
    let i ← below sites.length
    return (sites[i]?).bind fun site => (rule.apply t site).toOption

/-- The tree after a chance for one rule, if it changed anything. -/
def attempt (rate : Double) (rule : Rule) (t : Tree) : Draw G (Option Tree) := do
  if ← chance rate then applySomewhere rule t else return none

/-- The tree after a chance for each rule, if any of them changed anything. -/
def mutateWith (rate : Double) : List Rule → Tree → Draw G (Option Tree)
  | [], _ => return none
  | rule :: rest, t => do
    match ← attempt rate rule t with
    | none => mutateWith rate rest t
    | some t => return some ((← mutateWith rate rest t).getD t)

/-- The tree after a chance for each rule, if any of them changed anything. -/
def mutateTree (m : Mutator) (t : Tree) : Draw G (Option Tree) := mutateWith m.rate m.rules t

/-- A mutated candidate.  One that is not a program, or that no rule changed, keeps its
score. -/
def mutate (m : Mutator) (v : Variant) : Draw G Variant := do
  match v.tree? with
  | .error _ => return v
  | .ok t => return ((← m.mutateTree t).map Variant.ofTree).getD v

end Mutator

end ProgramBreeding

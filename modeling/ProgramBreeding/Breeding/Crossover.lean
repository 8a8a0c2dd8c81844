import ProgramBreeding.Breeding.Variant
import ProgramBreeding.Chance
import ProgramBreeding.Tree.Edit

/-!
# Crossover

A child is its first parent with one node replaced by a node of the same category
of the second parent.

## Main definitions

* `CrossoverSettings` — how often there is crossover at all, and of whole functions.
* `sharedCategories` — the categories that two trees have in common.
* `crossover` — the child of two candidates.
-/

namespace ProgramBreeding

open Chance

/-- How candidates are combined. -/
structure CrossoverSettings where
  /-- The probability that a child has two parents. -/
  rate : Double := 1.0
  /-- The probability that whole functions are exchanged if both parents have some. -/
  functionBias : Double := 0.0

/-- The categories that two trees have in common, the module apart. -/
def sharedCategories (t donor : Tree) : List Category :=
  let offered := donor.categories
  t.categories.filter fun category => offered.contains category && category != .module

variable {G : Type} [RandomSource G]

/-- A member of a list, all of them equally likely; an empty list has none. -/
def choose {α : Type} (xs : List α) : Draw G (Option α) := do
  if xs.isEmpty then return none else return xs[← below xs.length]?

/-- The category of the nodes that are exchanged, one of those in common. -/
def exchangedCategory (settings : CrossoverSettings) (shared : List Category) :
    Draw G (Option Category) := do
  if shared.contains .functionDef && 0.0 < settings.functionBias then
    if ← chance (Number.minDefined settings.functionBias 1.0) then return some .functionDef
    else choose shared
  else choose shared

/-- A tree with a random node of a category replaced by one of the same category. -/
def graft (t donor : Tree) (category : Category) : Draw G (Option Tree) := do
  let target ← choose (t.ofCategory category)
  let replacement ← choose (donor.ofCategory category)
  match target, replacement with
  | some target, some replacement =>
    return (t.replace (t.handle target) donor (donor.handle replacement)).toOption
  | _, _ => return none

/-- The child of two trees; none if they have no category in common. -/
def crossTrees (settings : CrossoverSettings) (t donor : Tree) : Draw G (Option Tree) := do
  match ← exchangedCategory settings (sharedCategories t donor) with
  | some category => graft t donor category
  | none => return none

/-- The child of two candidates, not judged.  It is a copy of its first parent if one
of them is not a program or they have no category in common. -/
def crossover (settings : CrossoverSettings) (parent other : Variant) : Draw G Variant := do
  match parent.tree?, other.tree? with
  | .ok t, .ok donor =>
    return ((← crossTrees settings t donor).map Variant.ofTree).getD parent.offspring
  | _, _ => return parent.offspring

end ProgramBreeding

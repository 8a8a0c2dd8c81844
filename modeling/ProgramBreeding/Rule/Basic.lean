/-!
# The rules of mutation

A rule changes how a program does something and is meant to leave alone what it does.

## Main definitions

* `Rule` — the rules.
* `Rule.all` — all of them, in the order in which they are tried.
* `Rule.id` — their names.
-/

namespace ProgramBreeding

/-- The rules of mutation. -/
inductive Rule where
  /-- A conditional or loop under a constant condition gives way to what it does. -/
  | deadBranch
  /-- Statements after a jump are removed. -/
  | unreachableCode
  /-- Arithmetic on constant integers is done once and for all. -/
  | constantFold
  /-- An assignment of a variable to itself and a constant is shortened. -/
  | augmentedAssign
  /-- A loop that adds up becomes a sum. -/
  | accumulationToSum
  /-- A loop that appends becomes a comprehension. -/
  | appendToComprehension
  /-- The length of a list is taken once before a loop and not in every round. -/
  | hoistLength
  deriving DecidableEq, Repr

/-- All rules, in the order in which they are tried. -/
def Rule.all : List Rule :=
  [.deadBranch, .unreachableCode, .constantFold, .augmentedAssign, .accumulationToSum,
    .appendToComprehension, .hoistLength]

/-- The name of a rule. -/
def Rule.id : Rule → String
  | .deadBranch => "dead_branch"
  | .unreachableCode => "unreachable_code"
  | .constantFold => "constant_fold"
  | .augmentedAssign => "augmented_assign"
  | .accumulationToSum => "accumulation_to_sum"
  | .appendToComprehension => "append_to_comprehension"
  | .hoistLength => "hoist_len"

/-- The rule with a name. -/
def Rule.ofId? (id : String) : Option Rule := Rule.all.find? fun rule => rule.id == id

end ProgramBreeding

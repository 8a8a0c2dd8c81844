import ProgramBreeding.Rule.Basic
import ProgramBreeding.Rule.Jump
import ProgramBreeding.Rule.Loop
import ProgramBreeding.Rule.Length

/-!
# Where rules match and what they do

## Main definitions

* `Rule.sites` — the nodes at which a rule matches, in the order of the text.
* `Rule.result?` — the tree that a rule makes at a node, if it can be applied there.
* `Rule.apply` — the same with an error for nodes at which it cannot.
-/

namespace ProgramBreeding.Rule

/-- The nodes at which a rule matches, in the order of the text. -/
def sites (rule : Rule) (t : Tree) : List Label :=
  match rule with
  | .deadBranch => t.deadBranches
  | .unreachableCode => t.jumpsWithRest
  | .constantFold => t.foldable
  | .augmentedAssign => t.selfAssignments
  | .accumulationToSum => t.accumulations
  | .appendToComprehension => t.appendLoops
  | .hoistLength => t.lengthLoops

/-- The tree that a rule makes at a node. -/
def result? (rule : Rule) (t : Tree) (label : Label) : Option Tree :=
  match rule with
  | .deadBranch => t.removeDeadBranch? label
  | .unreachableCode => t.removeRest? label
  | .constantFold => t.fold? label
  | .augmentedAssign => t.augment? label
  | .accumulationToSum => t.accumulationToSum? label
  | .appendToComprehension => t.appendToComprehension? label
  | .hoistLength => t.hoistLength? label

/-- The tree that a rule makes at a node, or an error if it does not match there. -/
def apply (rule : Rule) (t : Tree) (label : Label) : Except TreeError Tree :=
  match rule.result? t label with
  | some t => .ok t
  | none => .error (.unmatched (t.handle label))

end ProgramBreeding.Rule

import ProgramBreeding.Breeding.Score
import ProgramBreeding.Source.Parser
import ProgramBreeding.Source.Printer
import ProgramBreeding.Tree.Labelled

/-!
# Candidates

A candidate is a text and what is known about its quality.  The text decides
everything else; a tree is made of it when one is needed.

## Main definitions

* `Variant` — a candidate, with its score if it has been judged.
* `Variant.tree?` — the tree of its text.
* `Variant.offspring` — the same text, not judged.
-/

namespace ProgramBreeding

/-- The tree of a text.  Handles are never carried from one text to another, so all
of these trees may have the same lineage. -/
def treeOf (source : String) : Except Source.ParseError Tree :=
  (Source.parse source).map (Tree.ofBlock 0)

/-- A candidate. -/
structure Variant where
  source : String
  /-- The score, once the candidate has been judged. -/
  score : Option Score := none

namespace Variant

/-- The candidate that a tree is written as. -/
def ofTree (t : Tree) : Variant := ⟨Source.render t.body, none⟩

/-- The tree of a candidate. -/
def tree? (v : Variant) : Except Source.ParseError Tree := treeOf v.source

/-- Whether a candidate is a program. -/
def isProgram (v : Variant) : Bool := v.tree?.isOk

/-- The total score; that of a candidate not yet judged is zero. -/
def total (v : Variant) : Double := (v.score.map Score.total).getD 0.0

/-- The same candidate, not judged. -/
def offspring (v : Variant) : Variant := ⟨v.source, none⟩

/-- The same candidate with a score. -/
def judged (v : Variant) (score : Score) : Variant := ⟨v.source, some score⟩

end Variant

end ProgramBreeding

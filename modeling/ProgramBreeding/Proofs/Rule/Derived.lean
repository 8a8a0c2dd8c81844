import Mathlib.Logic.Relation
import ProgramBreeding.Breeding.Variant
import ProgramBreeding.Proofs.Rule.WellFormed
import ProgramBreeding.Proofs.Source.Lexemes
import ProgramBreeding.Proofs.Source.Writable

/-!
# The trees there are

A tree is read from a text or made of other such trees by grafts and rules.  All of them are well
formed, and what a handle denotes it denotes in all trees that come later, as long as they have it.

## Main definitions

* `Tree.Derived` — the trees there are.
* `Tree.Edit` — one of them made of another.
* `Tree.Derived.isWritable` — they can be written down.
* `Tree.Derived.wellFormed_descendants` — they are well formed, and their nodes are kept.
-/

namespace ProgramBreeding

open Source

/-- Trees that are read from a text, and trees that are made of them by grafts and by rules. -/
inductive Tree.Derived : Tree → Prop
  | read {text : String} {body : Block Line} (lineage : Nat) (h : parse text = .ok body) :
    Derived (Tree.ofBlock lineage body)
  | graft {t donor t' : Tree} {target replacement : Handle} (h : t.Derived) (hdonor : donor.Derived)
    (hresult : t.replace target donor replacement = .ok t') : Derived t'
  | rule {t t' : Tree} {rule : Rule} {label : Label} (h : t.Derived) (hsite : label ∈ rule.sites t)
    (hresult : rule.apply t label = .ok t') : Derived t'

/-- A tree made of another one: by a graft, or by a rule where it matches. -/
inductive Tree.Edit (t t' : Tree) : Prop
  | graft {donor : Tree} {target replacement : Handle} (hdonor : donor.Derived)
    (hresult : t.replace target donor replacement = .ok t')
  | rule {rule : Rule} {label : Label} (hsite : label ∈ rule.sites t)
    (hresult : rule.apply t label = .ok t')

theorem Rule.apply_eq_ok {rule : Rule} {t t' : Tree} {label : Label} (h : rule.apply t label = .ok t') :
    rule.result? t label = some t' := by
  unfold Rule.apply at h
  split at h
  · cases h
    assumption
  · cases h

namespace Tree.Derived

variable {t t' : Tree}

theorem edit (h : t.Derived) (hedit : t.Edit t') : t'.Derived := by
  cases hedit with
  | graft hdonor hresult => exact .graft h hdonor hresult
  | rule hsite hresult => exact .rule h hsite hresult

theorem descendant (h : t.Derived) (hedits : Relation.ReflTransGen Tree.Edit t t') : t'.Derived := by
  induction hedits with
  | refl => exact h
  | tail _ hedit ih => exact ih.edit hedit

/-- The trees there are can be written down. -/
theorem isWritable (h : t.Derived) : t.IsWritable := by
  induction h with
  | read lineage h => exact Tree.ofBlock_isWritable (fits_of_parse h).isWritable
  | graft _ _ hresult ih ihdonor => exact Tree.replace_isWritable ih ihdonor hresult
  | rule _ _ hresult ih => exact Rule.result?_isWritable _ ih (Rule.apply_eq_ok hresult)

theorem hasLabels (h : t.Derived) : t.HasLabels := by
  induction h with
  | read lineage _ => exact Tree.ofBlock_hasLabels lineage _
  | graft _ _ hresult ih _ => exact Tree.replace_hasLabels ih hresult
  | rule _ _ hresult ih => exact (Rule.result?_preserves ih (Rule.apply_eq_ok hresult)).labels

theorem keptIn (h : t.Derived) (hedit : t.Edit t') : t.KeptIn t' := by
  cases hedit with
  | graft _ hresult => exact Tree.replace_keptIn hresult
  | rule _ hresult => exact (Rule.result?_preserves h.hasLabels (Rule.apply_eq_ok hresult)).kept

/-- By induction on the edits: nodes are kept by each of them. -/
theorem keptIn_descendant (h : t.Derived) (hedits : Relation.ReflTransGen Tree.Edit t t') : t.KeptIn t' := by
  induction hedits with
  | refl => exact .refl t
  | tail hedits hedit ih => exact ih.trans ((h.descendant hedits).keptIn hedit)

/-- A tree is well formed, and so is what is made of it.  Nodes that an edit leaves in the tree say what
they said, and none of their bodies becomes empty, so that handles denote what they denoted. -/
theorem wellFormed_descendants (h : t.Derived) :
    t.WellFormed ∧ ∀ t', Relation.ReflTransGen Tree.Edit t t' →
      t'.WellFormed ∧ t.KeptIn t' ∧
        (∀ handle, t'.locate handle = .ok .module ↔ t.locate handle = .ok .module) ∧
        ∀ handle new, t'.locate handle = .ok (.node new) → handle.label < t.next →
          ∃ old, t.locate handle = .ok (.node old) ∧ old.Persists new := by
  refine ⟨h.hasLabels.wellFormed h.isWritable, fun t' hedits => ?_⟩
  have ht' := h.descendant hedits
  have hkept := h.keptIn_descendant hedits
  refine ⟨ht'.hasLabels.wellFormed ht'.isWritable, hkept, fun handle => ?_, fun handle new hnew hlt => ?_⟩
  · rw [Tree.locate_eq_module, Tree.locate_eq_module, hkept.lineage, hkept.root]
  · exact hkept.locate h.hasLabels hnew hlt

end Tree.Derived

theorem toOption_eq_some {ε α : Type} {result : Except ε α} {a : α} :
    result.toOption = some a ↔ result = .ok a := by
  cases result <;> simp [Except.toOption]

theorem Tree.Derived.of_treeOf {text : String} {t : Tree} (h : treeOf text = .ok t) : t.Derived := by
  cases hparse : parse text with
  | error e =>
    rw [treeOf, hparse] at h
    cases h
  | ok body =>
    rw [treeOf, hparse] at h
    cases h
    exact .read 0 hparse

/-- A text that can be read, with a node at which a rule matches. -/
theorem Rule.exists_site {rule : Rule} {text : String}
    (h : ((treeOf text).toOption.bind fun t => (rule.sites t).head?).isSome = true) :
    ∃ t label, treeOf text = .ok t ∧ t.Derived ∧ label ∈ rule.sites t := by
  obtain ⟨label, h⟩ := Option.isSome_iff_exists.mp h
  obtain ⟨t, ht, hsite⟩ := Option.bind_eq_some_iff.mp h
  rw [toOption_eq_some] at ht
  exact ⟨t, label, ht, .of_treeOf ht, List.mem_of_mem_head? hsite⟩

/-- A program with an operation that can be done once and for all. -/
def sumOfConstants : String := "def f():\n    return 1 + 2\n"

theorem Tree.Derived.wellFormed_descendants_sumOfConstants : ∃ t t' handle new, treeOf sumOfConstants = .ok t ∧
    t.Edit t' ∧ t'.WellFormed ∧ t'.locate handle = .ok (.node new) ∧
      ∃ old, t.locate handle = .ok (.node old) ∧ old.Persists new := by
  have hrun : ∃ new, ((treeOf sumOfConstants).toOption.bind fun t =>
      (Rule.constantFold.sites t).head?.bind fun label =>
        (Rule.constantFold.apply t label).toOption.bind fun t' =>
          t'.nodes.head?.bind fun new => if new.tag < t.next then some new else none) = some new :=
    Option.isSome_iff_exists.mp (by decide +kernel)
  obtain ⟨_, hrun⟩ := hrun
  simp only [Option.bind_eq_some_iff, Option.ite_none_right_eq_some, toOption_eq_some] at hrun
  obtain ⟨t, ht, label, hsite, t', hresult, new, hnew, hlt, -⟩ := hrun
  have hderived : t.Derived := .of_treeOf ht
  have hedit : t.Edit t' := .rule (List.mem_of_mem_head? hsite) hresult
  obtain ⟨-, hdescendants⟩ := Tree.Derived.wellFormed_descendants hderived
  obtain ⟨hwellFormed, -, -, hhandles⟩ := hdescendants t' (.single hedit)
  have hfound := hwellFormed.hasLabels.locate_handle (List.mem_of_mem_head? hnew)
  exact ⟨t, t', _, new, ht, hedit, hwellFormed, hfound, hhandles _ new hfound hlt⟩

end ProgramBreeding

import ProgramBreeding.Proofs.Breeding.Offspring
import ProgramBreeding.Proofs.Rule.Rereading

/-!
# Mutation comes to an end

A program cannot be mutated for ever.  Every rule that is applied makes it less bulky, and it does not become
bulkier by being printed and read again.

## Main definitions

* `Tree.Mutates` — a tree made of another one by a mutation.
* `Tree.Step` — the same, after which the tree may be printed and read again.
* `Tree.Derived.mutations_end` — there is no infinite sequence of steps.
-/

namespace ProgramBreeding

open Chance Source

/-- A tree made of another one by a mutation: by a mutator, whatever it draws, or by a rule and at a node of
one's choice. -/
inductive Tree.Mutates (t t' : Tree) : Prop
  | drawn {G : Type} [RandomSource G] {m : Mutator} {g : G} (h : (m.mutateTree t g).1 = some t')
  | chosen (h : t.Rewrites t')

/-- A tree made of another one by a mutation, or what is read back from the text of such a tree. -/
inductive Tree.Step (t : Tree) : Tree → Prop
  | mutated {t' : Tree} (h : t.Mutates t') : Step t t'
  | reread {t' : Tree} {body : Block Line} (lineage : Nat) (h : t.Mutates t')
    (hparse : parse (render t'.body) = .ok body) : Step t (Tree.ofBlock lineage body)

/-! ### Steps -/

namespace Tree

variable {t t' : Tree}

theorem Rewrites.edit (h : t.Rewrites t') : t.Edit t' := by
  obtain ⟨rule, label, hsite, hresult⟩ := h
  exact .rule hsite hresult

theorem Rewrites.bulk_lt (h : t.Rewrites t') (ht : t.Derived) : t'.bulk < t.bulk := by
  obtain ⟨rule, label, -, hresult⟩ := h
  exact Rule.result?_bulk_lt ht.hasLabels (Rule.apply_eq_ok hresult)

theorem Mutates.rewrites (h : t.Mutates t') : Relation.TransGen Tree.Rewrites t t' := by
  cases h with
  | @drawn G _ m g h => exact Mutator.mutateWith_rewrites m.rate m.rules t g t' h
  | chosen h => exact .single h

namespace Derived

/-- By induction on the rules that were applied: each of them makes the tree less bulky. -/
theorem rewritten (ht : t.Derived) (h : Relation.TransGen Tree.Rewrites t t') : t'.Derived ∧ t'.bulk < t.bulk := by
  induction h with
  | single h => exact ⟨ht.edit h.edit, h.bulk_lt ht⟩
  | tail _ h ih => exact ⟨ih.1.edit h.edit, lt_trans (h.bulk_lt ih.1) ih.2⟩

theorem step (ht : t.Derived) (h : t.Step t') : t'.Derived ∧ t'.bulk < t.bulk := by
  cases h with
  | mutated h => exact ht.rewritten h.rewrites
  | reread lineage h hparse =>
    obtain ⟨hderived, hlt⟩ := ht.rewritten h.rewrites
    exact ⟨.read lineage hparse, lt_of_le_of_lt (hderived.isWritable.bulk_reread lineage hparse) hlt⟩

/-- From a tree there is no infinite sequence of mutations, whatever is drawn and whether trees are read again
from their texts in between or not. -/
theorem mutations_end (chain : Nat → Tree) (hstart : (chain 0).Derived) :
    ∃ i, ¬ (chain i).Step (chain (i + 1)) := by
  by_contra! hsteps
  have hderived : ∀ i, (chain i).Derived := by
    intro i
    induction i with
    | zero => exact hstart
    | succ i ih => exact (ih.step (hsteps i)).1
  obtain ⟨i, hi⟩ := WellFounded.not_rel_apply_succ (r := (· < ·)) fun i => (chain i).bulk
  exact hi ((hderived i).step (hsteps i)).2

/-- A sum that starts from a number is longer than the loop that computes it. -/
def startingSum : String := "t = 5\nfor x in r:\n    t += x\n"

theorem mutations_end_startingSum : ∃ t t', treeOf startingSum = .ok t ∧ t.Step t' ∧
    ∃ i : Nat, ¬ (if i = 0 then t else t').Step t' := by
  have hrun : ((treeOf startingSum).toOption.bind fun t =>
      (Rule.accumulationToSum.sites t).head?.bind fun label =>
        (Rule.accumulationToSum.apply t label).toOption).isSome = true := by
    decide +kernel
  obtain ⟨t', hrun⟩ := Option.isSome_iff_exists.mp hrun
  simp only [Option.bind_eq_some_iff, toOption_eq_some] at hrun
  obtain ⟨t, ht, label, hsite, hresult⟩ := hrun
  have hstep : t.Step t' := .mutated (.chosen ⟨_, label, List.mem_of_mem_head? hsite, hresult⟩)
  exact ⟨t, t', ht, hstep, mutations_end (fun i => if i = 0 then t else t') (.of_treeOf ht)⟩

end Derived

end Tree

end ProgramBreeding

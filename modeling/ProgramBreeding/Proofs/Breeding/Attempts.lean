import ProgramBreeding.Proofs.Breeding.Draws
import ProgramBreeding.Proofs.Rule.Sites

/-!
# The chances of rules

A mutation gives one rule after the other its chance, on the tree that the rules before it have left.  A rule
that is lucky is applied at one of the nodes where it matches on that tree.  It does not fail there, so that a
chance comes to nothing only if the rule is not lucky or matches nowhere.

## Main definitions

* `Mutator.GetsChance` — the chances that there are in a mutation.
* `Mutator.mutateWith_cons` — a mutation is one chance after the other.
* `Mutator.attempt_eq_none_iff` — the chances that come to nothing.
* `Mutator.rewrites_succeed` — rules do not fail where they match, in a tree or in the course of its mutation.
-/

namespace ProgramBreeding

open Chance

theorem Tree.Rewrites.hasLabels {t t' : Tree} (h : t.Rewrites t') (ht : t.HasLabels) : t'.HasLabels := by
  obtain ⟨rule, label, -, hresult⟩ := h
  exact (Rule.result?_preserves ht (Rule.apply_eq_ok hresult)).labels

namespace Mutator

variable {G : Type} [RandomSource G] {rate : Double} {rule : Rule} {rest : List Rule} {t : Tree} {g : G}

/-- In a mutation of a tree by some rules, a rule gets its chance on a tree: it is the next rule, or it gets its
chance later, with what the next rule leaves. -/
inductive GetsChance (rate : Double) : List Rule → Tree → G → Rule → Tree → G → Prop
  | next {rule : Rule} {rest : List Rule} {t : Tree} {g : G} :
    GetsChance rate (rule :: rest) t g rule t g
  | later {rule : Rule} {rest : List Rule} {t : Tree} {g : G} {rule' : Rule} {t' : Tree} {g' : G}
    (h : GetsChance rate rest ((attempt rate rule t g).1.getD t) (attempt rate rule t g).2 rule' t' g') :
    GetsChance rate (rule :: rest) t g rule' t' g'

/-- The rest of a mutation goes on with what the next rule leaves. -/
theorem mutateWith_cons (rate : Double) (rule : Rule) (rest : List Rule) (t : Tree) (g : G) :
    ((mutateWith rate (rule :: rest) t g).1.getD t, (mutateWith rate (rule :: rest) t g).2) =
      let left := (attempt rate rule t g).1.getD t
      ((mutateWith rate rest left (attempt rate rule t g).2).1.getD left,
        (mutateWith rate rest left (attempt rate rule t g).2).2) := by
  rw [mutateWith]
  dsimp only [bind, StateT.bind]
  obtain ⟨result, g'⟩ := attempt rate rule t g
  cases result <;> rfl

/-- A rule that is applied somewhere changes the tree, unless it matches nowhere. -/
theorem applySomewhere_eq_none_iff (h : t.HasLabels) (rule : Rule) :
    Always G (applySomewhere rule t) fun result => result = none ↔ rule.sites t = [] := by
  unfold applySomewhere
  dsimp only
  split
  · rename_i hempty
    exact .pure (by simpa using hempty)
  · rename_i hempty
    have hne : rule.sites t ≠ [] := by simpa using hempty
    refine (always_below_lt (List.length_pos_iff.mpr hne)).bind fun i hi => .pure ?_
    obtain ⟨t', hresult, -⟩ := Rule.exists_apply_eq_ok h (List.getElem_mem hi)
    simp [List.getElem?_eq_getElem hi, hresult, Except.toOption, hne]

/-- A chance comes to nothing only if the rule is not lucky or matches nowhere. -/
theorem attempt_eq_none_iff (h : t.HasLabels) (rate : Double) (rule : Rule) (g : G) :
    (attempt rate rule t g).1 = none ↔ (chance rate g).1 = false ∨ rule.sites t = [] := by
  unfold attempt
  dsimp only [bind, StateT.bind]
  obtain ⟨lucky, g'⟩ := chance rate g
  cases lucky with
  | false => exact iff_of_true rfl (.inl rfl)
  | true => simpa using applySomewhere_eq_none_iff h rule g'

theorem attempt_hasLabels (h : t.HasLabels) (rate : Double) (rule : Rule) (g : G) :
    ((attempt rate rule t g).1.getD t).HasLabels := by
  cases hresult : (attempt rate rule t g).1 with
  | none => exact h
  | some t' => exact (attempt_rewrites rate rule t g t' hresult).hasLabels h

/-- By induction on the chances before. -/
theorem GetsChance.hasLabels {rules : List Rule} {rule' : Rule} {t' : Tree} {g' : G}
    (hchance : GetsChance rate rules t g rule' t' g') (h : t.HasLabels) : t'.HasLabels := by
  induction hchance with
  | next => exact h
  | later _ ih => exact ih (attempt_hasLabels h ..)

/-- Rules do not fail where they match.  In the course of a mutation, each rule gets its chance on a tree where
the same holds, so that it changes nothing only if it is not lucky or matches nowhere. -/
theorem rewrites_succeed (h : t.WellFormed) :
    (∀ rule label, label ∈ Rule.sites rule t →
      ∃ t', rule.apply t label = .ok t' ∧ rule.inSteps? t label = some t') ∧
    ∀ (m : Mutator) (g : G) rule t' g', GetsChance m.rate m.rules t g rule t' g' →
      ((attempt m.rate rule t' g').1 = none ↔ (chance m.rate g').1 = false ∨ rule.sites t' = []) :=
  ⟨fun _ _ hsite => Rule.exists_apply_eq_ok h.hasLabels hsite,
    fun m _ rule _ g' hchance => attempt_eq_none_iff (hchance.hasLabels h.hasLabels) m.rate rule g'⟩

/-- A loop that takes a length twice each time. -/
def twoLengths : Tree := .ofBlock 0
  [.whileLoop () (.compare () .lt (.call () (.name () "len") [.name () "xs"])
    (.binary () .mul (.call () (.name () "len") [.name () "xs"]) (.name () "x"))) [.pass ()]]

theorem rewrites_succeed_twoLengths : twoLengths.WellFormed ∧
    (∃ label t', label ∈ Rule.hoistLength.sites twoLengths ∧ Rule.hoistLength.apply twoLengths label = .ok t') ∧
    ∀ g : Generator, (attempt 1.0 .hoistLength twoLengths g).1 ≠ none := by
  have hwellFormed : twoLengths.WellFormed := Tree.ofBlock_wellFormed (by decide)
  have hsites : Rule.hoistLength.sites twoLengths ≠ [] := by decide
  obtain ⟨hsucceed, hchances⟩ := rewrites_succeed (G := Generator) hwellFormed
  obtain ⟨label, hsite⟩ := List.exists_mem_of_ne_nil _ hsites
  obtain ⟨t', hresult, -⟩ := hsucceed .hoistLength label hsite
  refine ⟨hwellFormed, ⟨label, t', hsite, hresult⟩, fun g hnone => ?_⟩
  rcases (hchances ⟨1.0, [.hoistLength]⟩ g .hoistLength twoLengths g .next).mp hnone with hlucky | hnowhere
  · have hcertain : (chance 1.0 g).1 = true := rfl
    exact absurd (hcertain.symm.trans hlucky) (by decide)
  · exact hsites hnowhere

end Mutator

end ProgramBreeding

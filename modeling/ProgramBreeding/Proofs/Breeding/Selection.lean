import ProgramBreeding.Breeding.Evolution
import ProgramBreeding.Proofs.Breeding.Offspring
import ProgramBreeding.Proofs.Number.Order

/-!
# Who is selected

Parents, elites and the leader of a generation are candidates of that generation.  Elites and leaders have
the highest totals.

## Main definitions

* `atLeast_trans`, `atLeast_total` — totals are in a total order.
* `bestFirst_pairwise` — candidates sorted by their totals.
* `Variant.IsLeaderOf`, `leader?_isLeader` — a candidate that no other one surpasses.
* `Evolution.matingPool_subset`, `elite_subset` — selected candidates.
-/

namespace ProgramBreeding

open Chance

/-! ### The order of totals -/

theorem atLeast_iff {a b : Double} : atLeast a b = true ↔ Number.totalKey b ≤ Number.totalKey a := by
  rw [atLeast, decide_eq_true_iff]

theorem atLeast_refl (a : Double) : atLeast a a = true := atLeast_iff.mpr (UInt64.le_refl _)

theorem atLeast_trans {a b c : Double} (hab : atLeast a b = true) (hbc : atLeast b c = true) : atLeast a c = true := by
  rw [atLeast_iff] at hab hbc ⊢
  exact UInt64.le_trans hbc hab

theorem atLeast_total (a b : Double) : (atLeast a b || atLeast b a) = true := by
  rw [Bool.or_eq_true, atLeast_iff, atLeast_iff]
  exact UInt64.le_total _ _

/-- As numbers, too, the one total is at least as high as the other. -/
theorem le_of_atLeast {a b : Double} (ha : a.isNaN = false) (hb : b.isNaN = false) (h : atLeast a b = true) :
    b ≤ a := by
  have hkey := atLeast_iff.mp h
  exact Double.le_of_totalKey hb ha hkey

/-! ### The best candidates -/

theorem bestFirst_perm (population : List Variant) : (bestFirst population).Perm population := by
  unfold bestFirst
  exact List.mergeSort_perm population _

theorem bestFirst_pairwise (population : List Variant) :
    (bestFirst population).Pairwise fun v w => atLeast v.total w.total = true := by
  unfold bestFirst
  refine List.pairwise_mergeSort ?_ ?_ population
  · exact fun _ _ _ => atLeast_trans
  · exact fun v w => atLeast_total v.total w.total

theorem elite_subset (population : List Variant) (count : Nat) : elite population count ⊆ population :=
  fun _ hv => (bestFirst_perm population).subset (List.mem_of_mem_take hv)

/-! ### Leaders -/

/-- A candidate that no other one surpasses. -/
structure Variant.IsLeaderOf (v : Variant) (population : List Variant) : Prop where
  mem : v ∈ population
  atLeast : ∀ w ∈ population, atLeast v.total w.total = true

/-- The leader of some candidates is one of them that no other one surpasses; without candidates there is
none.  By induction on the candidates, where `seen` have come before. -/
theorem foldl_leader (population : List Variant) : ∀ {seen : List Variant} {best : Option Variant},
    (∀ v ∈ best, v.IsLeaderOf seen) → (best = none → seen = []) →
    let leader := population.foldl (fun best v =>
      match best with
      | none => some v
      | some b => if atLeast v.total b.total then some v else some b) best
    (∀ v ∈ leader, v.IsLeaderOf (seen ++ population)) ∧ (leader = none → seen ++ population = []) := by
  induction population with
  | nil =>
    intro seen best hbest hnone
    rw [List.append_nil]
    exact ⟨hbest, hnone⟩
  | cons w rest ih =>
    intro seen best hbest hnone
    rw [show seen ++ w :: rest = (seen ++ [w]) ++ rest by rw [List.append_assoc]; rfl]
    refine ih ?_ ?_
    · cases best with
      | none =>
        rintro _ ⟨⟩
        rw [hnone rfl]
        refine ⟨List.mem_singleton_self _, fun u hu => ?_⟩
        rw [List.mem_singleton.mp hu]
        exact atLeast_refl _
      | some b =>
        have hb := hbest b rfl
        dsimp only
        split
        · rename_i hbetter
          rintro _ ⟨⟩
          refine ⟨List.mem_append_right _ (List.mem_singleton_self _), fun u hu => ?_⟩
          rcases List.mem_append.mp hu with hu | hu
          · exact atLeast_trans hbetter (hb.atLeast u hu)
          · rw [List.mem_singleton.mp hu]
            exact atLeast_refl _
        · rename_i hworse
          rintro _ ⟨⟩
          refine ⟨List.mem_append_left _ hb.mem, fun u hu => ?_⟩
          rcases List.mem_append.mp hu with hu | hu
          · exact hb.atLeast u hu
          · rw [List.mem_singleton.mp hu]
            exact (Bool.or_eq_true_iff.mp (atLeast_total b.total w.total)).resolve_right hworse
    · cases best with
      | none => exact nofun
      | some b =>
        dsimp only
        split <;> exact nofun

theorem leader?_isLeader {population : List Variant} {v : Variant} (h : leader? population = some v) :
    v.IsLeaderOf population :=
  (@foldl_leader population [] none nofun fun _ => rfl).1 v h

theorem leader?_eq_none {population : List Variant} (h : leader? population = none) : population = [] :=
  (@foldl_leader population [] none nofun fun _ => rfl).2 h

/-! ### Parents -/

namespace Evolution

theorem mem_of_distinctTexts {v : Variant} : ∀ {seen : List String} {population : List Variant},
    v ∈ distinctTexts seen population → v ∈ population
  | _, [], h => h
  | seen, w :: rest, h => by
    unfold distinctTexts at h
    split at h
    · exact List.mem_cons_of_mem _ (mem_of_distinctTexts h)
    · rcases List.mem_cons.mp h with rfl | h
      · exact List.mem_cons_self ..
      · exact List.mem_cons_of_mem _ (mem_of_distinctTexts h)

/-- Parents are candidates. -/
theorem matingPool_subset {G : Type} [RandomSource G] (settings : SelectionSettings) (population : List Variant) :
    Always G (matingPool settings population) fun parents => parents ⊆ population := by
  refine Always.bind (Q := fun parents => parents ⊆ population) ?_ fun parents hparents => .pure ?_
  · refine (Always.trivial _).bind fun positions _ => .pure fun v hv => ?_
    obtain ⟨i, -, hi⟩ := List.mem_filterMap.mp hv
    exact List.mem_of_getElem? hi
  · exact fun v hv => hparents (mem_of_distinctTexts hv)

end Evolution

end ProgramBreeding

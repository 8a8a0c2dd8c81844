import ProgramBreeding.Proofs.Breeding.Selection
import ProgramBreeding.Proofs.Number.TotalOrder

/-!
# The best candidates

The best candidates are found by a stable sort, so candidates of the same total keep their order, and of those
the first ones are taken.

## Main definitions

* `RanksBefore` — the order of positions by the totals there.
* `rankedEntries` — the candidates with their positions, in this order.
* `elite_isTop` — the best candidates are the first of this order.
-/

namespace ProgramBreeding

variable {population : List Variant}

/-- Whether the candidate at one position ranks before the one at another: its total is higher, or it is the same
and the candidate comes first. -/
def RanksBefore (population : List Variant) (i j : Nat) : Prop :=
  ∃ v w, population[i]? = some v ∧ population[j]? = some w ∧
    (w.total.TotalLT v.total ∨ v.total = w.total ∧ i < j)

/-- The order of candidates with their positions. -/
abbrev entryOrder : Variant × Nat → Variant × Nat → Bool :=
  List.zipIdxLE fun v w => atLeast v.total w.total

/-- The candidates with their positions, the best one first. -/
def rankedEntries (population : List Variant) : List (Variant × Nat) := population.zipIdx.mergeSort entryOrder

theorem rankedEntries_perm (population : List Variant) : (rankedEntries population).Perm population.zipIdx :=
  List.mergeSort_perm _ _

/-- Forgetting the positions leaves the sorted candidates. -/
theorem map_fst_rankedEntries (population : List Variant) :
    (rankedEntries population).map Prod.fst = bestFirst population := by
  unfold bestFirst rankedEntries
  exact List.mergeSort_zipIdx

theorem nodup_positions (population : List Variant) : ((rankedEntries population).map Prod.snd).Nodup := by
  refine ((rankedEntries_perm population).map Prod.snd).nodup_iff.mpr ?_
  rw [List.zipIdx_map_snd]
  exact List.nodup_range'

theorem getElem?_of_mem_rankedEntries {v : Variant} {i : Nat} (h : (v, i) ∈ rankedEntries population) :
    population[i]? = some v :=
  List.mem_zipIdx_iff_getElem?.mp ((rankedEntries_perm population).mem_iff.mp h)

theorem mem_rankedEntries {i : Nat} (h : i < population.length) : (population[i], i) ∈ rankedEntries population :=
  (rankedEntries_perm population).mem_iff.mpr
    (List.mem_zipIdx_iff_getElem?.mpr (List.getElem?_eq_getElem h))

theorem ranksBefore_of_entryOrder {a b : Variant × Nat} (ha : a ∈ rankedEntries population)
    (hb : b ∈ rankedEntries population) (hne : a.2 ≠ b.2) (h : entryOrder a b = true) :
    RanksBefore population a.2 b.2 := by
  refine ⟨a.1, b.1, getElem?_of_mem_rankedEntries ha, getElem?_of_mem_rankedEntries hb, ?_⟩
  unfold entryOrder List.zipIdxLE at h
  split at h
  · rename_i hab
    split at h
    · rename_i hba
      rw [atLeast_iff] at hab hba
      have hlt : a.2 < b.2 := Nat.lt_of_le_of_ne (of_decide_eq_true h) hne
      exact .inr ⟨Double.totalKey_inj.mp (UInt64.le_antisymm hba hab), hlt⟩
    · rename_i hba
      rw [atLeast_iff, UInt64.not_le] at hba
      exact .inl (Double.totalLT_iff.mpr hba)
  · cases h

/-- Each entry ranks before those after it. -/
theorem pairwise_rankedEntries (population : List Variant) :
    (rankedEntries population).Pairwise fun a b => RanksBefore population a.2 b.2 := by
  have hsorted : (rankedEntries population).Pairwise fun a b => entryOrder a b = true := by
    unfold rankedEntries
    refine List.pairwise_mergeSort ?_ ?_ population.zipIdx
    · exact List.zipIdxLE_trans fun _ _ _ => atLeast_trans
    · exact List.zipIdxLE_total fun v w => atLeast_total v.total w.total
  have hdistinct : (rankedEntries population).Pairwise fun a b => a.2 ≠ b.2 :=
    List.pairwise_map.mp (nodup_positions population)
  exact (hsorted.and hdistinct).imp_of_mem fun ha hb h => ranksBefore_of_entryOrder ha hb h.2 h.1

/-- The best candidates, as many as are wanted and there are, stand at different positions.  They come in the
order of their ranks, and those left out rank after all of them. -/
theorem elite_isTop (population : List Variant) (count : Nat) :
    ∃ positions : List Nat, positions.length = min count population.length ∧ positions.Nodup ∧
      List.Forall₂ (fun i v => population[i]? = some v) positions (elite population count) ∧
      positions.Pairwise (RanksBefore population) ∧
      ∀ i ∈ positions, ∀ j < population.length, j ∉ positions → RanksBefore population i j := by
  have hsplit := List.take_append_drop count (rankedEntries population)
  have hpairwise := pairwise_rankedEntries population
  have hdistinct := nodup_positions population
  have helite : elite population count = ((rankedEntries population).take count).map Prod.fst := by
    rw [elite, ← map_fst_rankedEntries, List.map_take]
  refine ⟨((rankedEntries population).take count).map Prod.snd, ?_, ?_, ?_, ?_, ?_⟩
  · rw [List.length_map, List.length_take, (rankedEntries_perm population).length_eq, List.length_zipIdx]
  · exact hdistinct.sublist ((List.take_sublist _ _).map _)
  · rw [helite, List.forall₂_map_left_iff, List.forall₂_map_right_iff, List.forall₂_same]
    exact fun entry hentry => getElem?_of_mem_rankedEntries (List.mem_of_mem_take hentry)
  · exact List.pairwise_map.mpr (hpairwise.sublist (List.take_sublist _ _))
  · intro i hi j hj hout
    obtain ⟨a, ha, rfl⟩ := List.mem_map.mp hi
    -- A candidate that was not taken is among the entries that were dropped.
    have hmem := mem_rankedEntries hj
    rw [← hsplit] at hpairwise hmem
    have hdropped : (population[j], j) ∈ (rankedEntries population).drop count :=
      (List.mem_append.mp hmem).resolve_left fun h => hout (List.mem_map.mpr ⟨_, h, rfl⟩)
    exact (List.pairwise_append.mp hpairwise).2.2 a ha _ hdropped

end ProgramBreeding

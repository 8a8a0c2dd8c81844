import ProgramBreeding.Proofs.Breeding.Generations
import ProgramBreeding.Proofs.Rule.Derived

/-!
# The best candidate is never lost

A run replaces its whole population again and again, but the best candidate of all generations is kept
beside it.

## Main definitions

* `inUnit_total` — totals are in the unit interval.
* `Progress.Keeps` — what a run knows of the generations that it has judged.
* `Progress.Keeps.record` — it is kept when one more generation is judged.
* `Evolution.run_keeps_best` — the outcome of a run in terms of its generations.

## Design notes

Totals are compared as numbers in the end, and by the total order of doubles meanwhile.  These agree but for
the sign of zero, as no total is undefined.
-/

namespace ProgramBreeding

open Chance

variable {G : Type} [RandomSource G]

/-! ### Totals -/

/-- The total of a score is in the unit interval. -/
def Score.TotalInUnit (_ : String) (score : Score) : Prop := score.total.InUnit

theorem Weights.inUnit_combine (w : Weights) (correctness performance readability : Double) :
    (w.combine correctness performance readability).InUnit := by
  unfold combine
  dsimp only
  split
  · exact Double.inUnit_zero
  · exact Double.inUnit_clampUnit _

theorem Judge.inUnit_score (judge : Judge) (watch : Watch) (v : Variant) : (judge.score watch v).total.InUnit := by
  unfold score
  split
  · exact Double.inUnit_zero
  · exact Weights.inUnit_combine ..

theorem Variant.Carries.inUnit_total {v : Variant} (h : v.Carries Score.TotalInUnit) : v.total.InUnit := by
  unfold total
  cases hscore : v.score with
  | none => exact Double.inUnit_zero
  | some score => exact h score hscore

/-- The totals of some generations. -/
def totalsOf (gens : List (List Variant)) : List Double := gens.flatten.map Variant.total

theorem totalsOf_append (gens gens' : List (List Variant)) :
    totalsOf (gens ++ gens') = totalsOf gens ++ totalsOf gens' := by
  rw [totalsOf, List.flatten_append, List.map_append]
  rfl

theorem totalsOf_singleton (population : List Variant) : totalsOf [population] = population.map Variant.total := by
  rw [totalsOf, List.flatten_singleton]

/-! ### The best of a generation -/

/-- A leader has the greatest total. -/
theorem Variant.IsLeaderOf.isMaximumOf {leader : Variant} {population : List Variant}
    (h : leader.IsLeaderOf population) (hnumbers : ∀ v ∈ population, v.total.isNaN = false) :
    leader.total.IsMaximumOf (population.map Variant.total) := by
  refine ⟨fun y hy => ?_, leader.total, List.mem_map_of_mem h.mem, Double.le_rfl (hnumbers leader h.mem)⟩
  obtain ⟨v, hv, rfl⟩ := List.mem_map.mp hy
  exact le_of_atLeast (hnumbers leader h.mem) (hnumbers v hv) (h.atLeast v hv)

/-- The highest total of a generation is among its totals, unless there are none. -/
theorem Summary.isMaximumOf_best {population : List Variant} (hne : population ≠ [])
    (hnumbers : ∀ v ∈ population, v.total.isNaN = false) :
    (ofPopulation population).best.IsMaximumOf (population.map Variant.total) := by
  have hsome : population.map Variant.total ≠ [] := fun h => hne (List.map_eq_nil_iff.mp h)
  rw [ofPopulation, ofTotals, if_neg (by rwa [List.isEmpty_iff])]
  refine Double.isMaximumOf_greatest hsome fun x hx => ?_
  obtain ⟨v, hv, rfl⟩ := List.mem_map.mp hx
  exact hnumbers v hv

/-- The greatest of the totals of some generations is the greatest of their highest totals. -/
theorem isMaximumOf_bests {x first : Double} {gens : List (List Variant)} (hfirst : first.InUnit)
    (hunit : ∀ gen ∈ gens, ∀ v ∈ gen, v.total.InUnit) (hx : x.IsMaximumOf (first :: totalsOf gens)) :
    x.IsMaximumOf (first :: gens.map fun gen => (Summary.ofPopulation gen).best) := by
  have hbest : ∀ gen ∈ gens, gen ≠ [] →
      (Summary.ofPopulation gen).best.IsMaximumOf (gen.map Variant.total) := fun gen hgen hne =>
    Summary.isMaximumOf_best hne fun v hv => (hunit gen hgen v hv).isNaN_eq
  have htotal : ∀ gen ∈ gens, ∀ y ∈ gen.map Variant.total, y ∈ first :: totalsOf gens := by
    intro gen hgen y hy
    obtain ⟨v, hv, rfl⟩ := List.mem_map.mp hy
    exact List.mem_cons_of_mem _ (List.mem_map_of_mem (List.mem_flatten_of_mem hgen hv))
  refine ⟨fun y hy => ?_, ?_⟩
  · rcases List.mem_cons.mp hy with rfl | hy
    · exact hx.le y (List.mem_cons_self ..)
    · obtain ⟨gen, hgen, rfl⟩ := List.mem_map.mp hy
      by_cases hne : gen = []
      · rw [hne]
        exact Double.le_trans hfirst.low (hx.le first (List.mem_cons_self ..))
      · exact (hbest gen hgen hne).mono hx (htotal gen hgen)
  · obtain ⟨y, hy, hxy⟩ := hx.attained
    rcases List.mem_cons.mp hy with rfl | hy
    · exact ⟨y, List.mem_cons_self .., hxy⟩
    · obtain ⟨v, hv, rfl⟩ := List.mem_map.mp hy
      obtain ⟨gen, hgen, hv⟩ := List.mem_flatten.mp hv
      refine ⟨_, List.mem_cons_of_mem _ (List.mem_map_of_mem hgen), Double.le_trans hxy ?_⟩
      exact (hbest gen hgen (List.ne_nil_of_mem hv)).le _ (List.mem_map_of_mem hv)

/-! ### What a run keeps -/

namespace Progress

/-- What a run knows of the generations that it has judged: the best total of all of them and of the first
program, the last generation, and for each one its summary and the best total by then. -/
structure Keeps (seed : Variant) (gens : List (List Variant)) (p : Progress) : Prop where
  best : p.best.total.IsMaximumOf (seed.total :: totalsOf gens)
  judged : p.judged = gens.getLastD [seed]
  generation : p.generation = gens.length
  summaries : p.stats.map GenerationStats.summary = gens.map Summary.ofPopulation
  bestEver : ∀ (i : Nat) (stat : GenerationStats), p.stats[i]? = some stat →
    stat.bestEver.IsMaximumOf (seed.total :: totalsOf (gens.take (i + 1)))

/-- The best total so far is the greatest of the one before and those of the generation just judged. -/
theorem isMaximumOf_record (p : Progress) {judged : List Variant} (hbest : p.best.total.isNaN = false)
    (hnumbers : ∀ v ∈ judged, v.total.isNaN = false) :
    (p.record judged).best.total.IsMaximumOf (p.best.total :: judged.map Variant.total) := by
  unfold record
  cases hleader : leader? judged with
  | none =>
    rw [leader?_eq_none hleader]
    exact .singleton hbest
  | some leader =>
    have hmax := (leader?_isLeader hleader).isMaximumOf hnumbers
    dsimp only
    split
    · rename_i hless
      refine .congr (hmax.append (.singleton hbest) (Double.le_of_lt hless)) fun y => ?_
      simp [or_comm]
    · rename_i hless
      exact .append (.singleton hbest) hmax (Double.le_of_not_lt hmax.isNaN_eq hbest hless)

theorem Keeps.start {seed : Variant} (h : seed.total.isNaN = false) (others : List Variant) :
    Keeps seed [] (start seed others) where
  best := .singleton h
  judged := rfl
  generation := rfl
  summaries := rfl
  bestEver := nofun

theorem Keeps.record {seed : Variant} {gens : List (List Variant)} {p : Progress} (h : p.Keeps seed gens)
    {judged : List Variant} (hnumbers : ∀ v ∈ judged, v.total.isNaN = false) :
    (p.record judged).Keeps seed (gens ++ [judged]) := by
  have hbest : (p.record judged).best.total.IsMaximumOf (seed.total :: totalsOf (gens ++ [judged])) := by
    rw [totalsOf_append, totalsOf_singleton]
    exact h.best.extend (p.isMaximumOf_record h.best.isNaN_eq hnumbers)
  have hstats : (p.record judged).stats =
      p.stats ++ [⟨p.generation, Summary.ofPopulation judged, (p.record judged).best.total⟩] := rfl
  have hlength : p.stats.length = gens.length := by
    rw [← List.length_map GenerationStats.summary, h.summaries, List.length_map]
  refine ⟨hbest, ?_, ?_, ?_, ?_⟩
  · rw [List.getLastD_concat]
    rfl
  · rw [List.length_append, ← h.generation]
    rfl
  · rw [hstats, List.map_append, h.summaries, List.map_append]
    rfl
  · intro i stat hstat
    rw [hstats, List.getElem?_append] at hstat
    split at hstat
    -- An earlier generation is summed up as before, and the last one by the best total so far.
    · rename_i hi
      rw [List.take_append_of_le_length (by omega)]
      exact h.bestEver i stat hstat
    · rename_i hi
      obtain ⟨hi', rfl⟩ := List.getElem?_eq_some_iff.mp hstat
      rw [List.length_singleton] at hi'
      rw [List.take_of_length_le (by rw [List.length_append, List.length_singleton]; omega)]
      simpa using hbest

/-- The best total by each generation in terms of the summaries. -/
theorem Keeps.bestEver_bests {seed : Variant} {gens : List (List Variant)} {p : Progress} (h : p.Keeps seed gens)
    (hseed : seed.total.InUnit) (hunit : ∀ gen ∈ gens, ∀ v ∈ gen, v.total.InUnit) {i : Nat} {stat : GenerationStats}
    (hstat : p.stats[i]? = some stat) :
    stat.bestEver.IsMaximumOf (seed.total :: (p.stats.take (i + 1)).map fun stat => stat.summary.best) := by
  have hbests : (p.stats.take (i + 1)).map (fun stat => stat.summary.best) =
      (gens.take (i + 1)).map fun gen => (Summary.ofPopulation gen).best :=
    calc (p.stats.take (i + 1)).map (fun stat => stat.summary.best)
        = ((p.stats.map GenerationStats.summary).take (i + 1)).map Summary.best := by
          rw [← List.map_take, List.map_map]
          rfl
      _ = ((gens.map Summary.ofPopulation).take (i + 1)).map Summary.best := by rw [h.summaries]
      _ = (gens.take (i + 1)).map fun gen => (Summary.ofPopulation gen).best := by
          rw [← List.map_take, List.map_map]
          rfl
  rw [hbests]
  exact isMaximumOf_bests hseed (fun gen hgen => hunit gen (List.mem_of_mem_take hgen)) (h.bestEver i stat hstat)

/-- The best total so far never falls. -/
theorem Keeps.bestEver_pairwise {seed : Variant} {gens : List (List Variant)} {p : Progress} (h : p.Keeps seed gens) :
    (p.stats.map GenerationStats.bestEver).Pairwise (· ≤ ·) := by
  rw [List.pairwise_map, List.pairwise_iff_getElem]
  intro i j hi hj hij
  refine (h.bestEver i _ (List.getElem?_eq_getElem hi)).mono (h.bestEver j _ (List.getElem?_eq_getElem hj)) ?_
  refine List.cons_subset_cons _ (List.map_subset _ ?_)
  exact (List.Sublist.flatten (List.take_sublist_take_left (by omega))).subset

end Progress

/-! ### The outcome -/

namespace Evolution

variable {e : Evolution} {around : Surroundings} {t : Tree}

/-- What a run comes to is known of its generations, and all totals in them are in the unit interval. -/
theorem finish_keeps (hseed : around.cancelled .seedJudged = false) :
    (e.finish G around t).1.Keeps (e.judgedSeed G around t) (e.history G around t) ∧
      (e.finish G around t).1.Carries Score.TotalInUnit ∧
      ∀ gen ∈ e.history G around t, ∀ v ∈ gen, v.total.InUnit := by
  have hcarries : (e.judgedSeed G around t).Carries Score.TotalInUnit :=
    Variant.carries_judged (Judge.inUnit_score ..)
  refine finish_invariant hseed (I := fun gens p => p.Keeps (e.judgedSeed G around t) gens ∧
    p.Carries Score.TotalInUnit ∧ ∀ gen ∈ gens, ∀ v ∈ gen, v.total.InUnit) ?_ ?_ ?_
  · intro g
    have hothers := mutants_carries e.mutator hcarries (e.settings.populationSize - 1) g
    exact ⟨.start hcarries.inUnit_total.isNaN_eq _, .start hcarries hothers, nofun⟩
  · rintro gens p ⟨hkeeps, hall, hunit⟩
    have hjudged : ∀ v ∈ (e.judge G t).judgeAll p.memo around p.generation p.population,
        v.Carries Score.TotalInUnit :=
      Judge.judgeAll_carries hall.memo hall.population fun i v => Judge.inUnit_score (e.judge G t) _ v
    refine ⟨hkeeps.record fun v hv => (hjudged v hv).inUnit_total.isNaN_eq, hall.record hjudged, ?_⟩
    intro gen hgen
    rcases List.mem_append.mp hgen with hgen | hgen
    · exact hunit gen hgen
    · rw [List.mem_singleton.mp hgen]
      exact fun v hv => (hjudged v hv).inUnit_total
  · rintro gens p g ⟨hkeeps, hall, hunit⟩
    exact ⟨{ hkeeps with }, hall.breed e.settings e.mutator g, hunit⟩

/-- The best candidate of a run has the greatest total of all generations and of the first program.  The best
total by each generation is the greatest one by then, so it never falls.  What is left of the population is
the last generation, the best candidates first. -/
theorem run_keeps_best (ht : e.seed.tree? = .ok t) (hseed : around.cancelled .seedJudged = false) :
    ∃ outcome, e.run G around = .ok (outcome, { e with phase := .terminated }) ∧
      let gens := e.history G around t
      outcome.best.total.IsMaximumOf (outcome.seedScore.total :: totalsOf gens) ∧
      (∀ (i : Nat) (stat : GenerationStats), outcome.stats[i]? = some stat → stat.bestEver.IsMaximumOf
        (outcome.seedScore.total :: (outcome.stats.take (i + 1)).map fun stat => stat.summary.best)) ∧
      (outcome.stats.map GenerationStats.bestEver).Pairwise (· ≤ ·) ∧
      outcome.stats.map GenerationStats.summary = gens.map Summary.ofPopulation ∧
      outcome.generations = gens.length ∧
      outcome.population.Pairwise (fun v w => w.total ≤ v.total) ∧
      outcome.population.Perm (gens.getLastD [e.seed.judged outcome.seedScore]) := by
  obtain ⟨hkeeps, hcarries, hunit⟩ := finish_keeps (G := G) (e := e) (t := t) hseed
  refine ⟨e.outcome G around t, run_eq ht, ?_⟩
  rw [outcome_eq hseed]
  intro gens
  dsimp only
  refine ⟨hkeeps.best, ?_, ?_, hkeeps.summaries, hkeeps.generation, ?_, ?_⟩
  · have hseedUnit : (e.judgedSeed G around t).total.InUnit := Judge.inUnit_score ..
    exact fun i stat hstat => hkeeps.bestEver_bests hseedUnit hunit hstat
  · exact hkeeps.bestEver_pairwise
  · refine (bestFirst_pairwise _).imp_of_mem fun {v w} hv hw h => ?_
    have hnumber : ∀ u ∈ bestFirst (e.finish G around t).1.judged, u.total.isNaN = false := fun u hu =>
      (hcarries.judged u ((bestFirst_perm _).subset hu)).inUnit_total.isNaN_eq
    exact le_of_atLeast (hnumber v hv) (hnumber w hw) h
  · have hlast : gens.getLastD [e.judgedSeed G around t] = (e.finish G around t).1.judged := hkeeps.judged.symm
    show (bestFirst (e.finish G around t).1.judged).Perm (gens.getLastD [e.judgedSeed G around t])
    rw [hlast]
    exact bestFirst_perm _

/-- A run is cancelled before its third generation. -/
def cancelledThird : Surroundings where
  cancelled
    | .before generation => 2 ≤ generation
    | _ => false

theorem run_keeps_best_cancelled : ∃ t outcome,
    let e : Evolution := { seed := ⟨"def f(n):\n    return n + 0\n", none⟩, settings := {} }
    e.seed.tree? = .ok t ∧ e.run Generator cancelledThird = .ok (outcome, { e with phase := .terminated }) ∧
      outcome.best.total.IsMaximumOf (outcome.seedScore.total :: totalsOf (e.history Generator cancelledThird t)) := by
  let e : Evolution := { seed := ⟨"def f(n):\n    return n + 0\n", none⟩, settings := {} }
  obtain ⟨t, ht⟩ := Option.isSome_iff_exists.mp (show e.seed.tree?.toOption.isSome = true by decide +kernel)
  rw [toOption_eq_some] at ht
  have hseed : cancelledThird.cancelled .seedJudged = false := rfl
  obtain ⟨outcome, hrun, hbest, -⟩ := run_keeps_best (G := Generator) ht hseed
  exact ⟨t, outcome, ht, hrun, hbest⟩

end Evolution

end ProgramBreeding

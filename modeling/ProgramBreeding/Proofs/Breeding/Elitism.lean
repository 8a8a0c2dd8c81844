import ProgramBreeding.Proofs.Breeding.Best
import ProgramBreeding.Proofs.Breeding.Brood

/-!
# The best candidates live on

The best candidates of a generation are taken over into the next one without mutation, and there they are not
judged again.  So they are in it with the scores they had, and the best total never falls from one generation
to the next.

## Main definitions

* `Evolution.Succession` — a generation and one that has taken over the best candidates of it.
* `Judge.judgeAll_append` — candidates that have a score keep it when a generation is judged.
* `Evolution.isChain_history` — each generation of a run has taken over the best of the one before.
* `Evolution.run_keeps_elites` — the elites and the best totals of a run.

## Design notes

A candidate may be in a generation several times.  So what is taken over is counted: the elites are a part of
the one generation up to its order, and the last part of the other.
-/

namespace ProgramBreeding

open Chance

variable {G : Type} [RandomSource G]

/-! ### Scores that stay -/

namespace Judge

variable {judge : Judge} {v : Variant} {population : List Variant}

theorem judge_of_scored (h : v.score ≠ none) (memo : Memo) (watch : Watch) : judge.judge memo watch v = v := by
  obtain ⟨score, hscore⟩ := Option.ne_none_iff_exists'.mp h
  rw [Judge.judge, hscore]

theorem judge_scored (judge : Judge) (memo : Memo) (watch : Watch) (v : Variant) :
    (judge.judge memo watch v).score ≠ none := by
  unfold Judge.judge
  split
  · rename_i score hscore
    rw [hscore]
    exact nofun
  · split <;> exact nofun

theorem judgeAll_scored (judge : Judge) (memo : Memo) (around : Surroundings) (generation : Nat)
    (population : List Variant) : ∀ v ∈ judge.judgeAll memo around generation population, v.score ≠ none := by
  intro v hv
  obtain ⟨entry, -, rfl⟩ := List.mem_map.mp hv
  exact judge.judge_scored memo _ entry.1

/-- Candidates at the end of a generation that have a score already are not judged again. -/
theorem judgeAll_append (memo : Memo) (around : Surroundings) (generation : Nat) (newcomers : List Variant)
    {elites : List Variant} (h : ∀ v ∈ elites, v.score ≠ none) :
    judge.judgeAll memo around generation (newcomers ++ elites) =
      judge.judgeAll memo around generation newcomers ++ elites := by
  unfold judgeAll
  rw [List.zipIdx_append, List.map_append, Nat.zero_add]
  refine congrArg _ ?_
  calc (elites.zipIdx newcomers.length).map _
      = (elites.zipIdx newcomers.length).map Prod.fst :=
        List.map_congr_left fun entry hentry => judge_of_scored (h _ (List.fst_mem_of_mem_zipIdx hentry)) _ _
    _ = elites := List.zipIdx_map_fst _ _

end Judge

namespace Evolution

/-! ### From one generation to the next -/

/-- A judged generation, and one that has taken over the best candidates of it as they are, with their scores:
as many as are wanted and can be, and nobody who was left behind is better. -/
structure Succession (settings : EvolutionSettings) (gen gen' : List Variant) : Prop where
  scored : ∀ v ∈ gen, v.score ≠ none
  takesOver : ∃ elites left newcomers : List Variant,
    elites.length = min settings.selection.eliteCount settings.populationSize ∧
    gen.Perm (elites ++ left) ∧ (∀ v ∈ elites, ∀ w ∈ left, atLeast v.total w.total = true) ∧
    gen' = newcomers ++ elites

/-- If anybody is taken over, the best total does not fall. -/
theorem Succession.best_le {settings : EvolutionSettings} {gen gen' : List Variant}
    (h : Succession settings gen gen') (helite : 0 < settings.selection.eliteCount)
    (hsize : 0 < settings.populationSize) (hgen : ∀ v ∈ gen, v.total.isNaN = false)
    (hgen' : ∀ v ∈ gen', v.total.isNaN = false) :
    (Summary.ofPopulation gen).best ≤ (Summary.ofPopulation gen').best := by
  obtain ⟨elites, left, newcomers, hlength, hperm, hbest, rfl⟩ := h.takesOver
  obtain ⟨u, hu⟩ : ∃ u, u ∈ elites := List.exists_mem_of_length_pos (by omega)
  have hnext : u ∈ newcomers ++ elites := List.mem_append_right _ hu
  have hmax := Summary.isMaximumOf_best (List.ne_nil_of_mem hnext) hgen'
  have hne : gen ≠ [] := List.ne_nil_of_mem (hperm.symm.subset (List.mem_append_left _ hu))
  obtain ⟨y, hy, hle⟩ := (Summary.isMaximumOf_best hne hgen).attained
  obtain ⟨v, hv, rfl⟩ := List.mem_map.mp hy
  refine Double.le_trans hle ?_
  -- The best candidate is an elite itself, or an elite is no worse.
  rcases List.mem_append.mp (hperm.subset hv) with hv' | hv'
  · exact hmax.le _ (List.mem_map_of_mem (List.mem_append_right _ hv'))
  · have hvu := le_of_atLeast (hgen' u hnext) (hgen v hv) (hbest u hu v hv')
    exact Double.le_trans hvu (hmax.le _ (List.mem_map_of_mem hnext))

variable {e : Evolution} {around : Surroundings} {t : Tree} {remaining : Nat} {p : Progress} {g : G}

/-- The generation after a state of a run takes over the best candidates of the generation of that state. -/
theorem Reaches.succession (h : e.Reaches around t remaining p g) (hcheck : e.settings.check = .ok ()) :
    Succession e.settings (e.judgedIn G around t p) (e.judgedIn G around t (e.after around t p g).1) := by
  have hscored : ∀ v ∈ e.judgedIn G around t p, v.score ≠ none :=
    Judge.judgeAll_scored _ _ _ _ _
  have hsize : (e.judgedIn G around t p).length = e.settings.populationSize := by
    rw [judgedIn_length, h.length_population hcheck]
  have hcomplete := brood_isComplete hcheck e.mutator hsize g
  have hpopulation : (e.after around t p g).1.population =
      (brood e.settings e.mutator (e.judgedIn G around t p) g).1.next := breed_fst ..
  generalize (brood e.settings e.mutator (e.judgedIn G around t p) g).1 = b at hcomplete hpopulation
  generalize (e.after around t p g).1 = p' at hpopulation
  obtain ⟨left, hperm, hbest⟩ := hcomplete.elites_best
  have hkept : e.judgedIn G around t p' =
      (e.judge G t).judgeAll p'.memo around p'.generation b.mutated ++ b.elites := by
    rw [judgedIn, hpopulation]
    exact Judge.judgeAll_append _ _ _ _ fun v hv => hscored v (hcomplete.elites_subset hv)
  exact ⟨hscored, b.elites, left, _, hcomplete.elites_length, hperm, hbest, hkept⟩

/-- The generations from a state of a run on, the first of which is that of the state.  By induction on the
generations that may still be judged. -/
theorem Reaches.isChain_judgedFrom (hcheck : e.settings.check = .ok ()) :
    ∀ {remaining : Nat} {p : Progress} {g : G}, e.Reaches around t remaining p g →
      let gens := (judgedFrom e.settings (e.judge G t) e.mutator around remaining p g).1
      gens.IsChain (Succession e.settings) ∧ ∀ gen ∈ gens.head?, gen = e.judgedIn G around t p
  | 0, p, g, _ => ⟨.nil, fun gen hgen => absurd hgen (Option.not_mem_none gen)⟩
  | remaining + 1, p, g, h => by
    have hjudgedIn : (e.judge G t).judgeAll p.memo around p.generation p.population = e.judgedIn G around t p := rfl
    unfold judgedFrom
    -- Cancelled before or while the generation is judged, the run has no more generations.
    cases hbefore : around.cancelled (.before p.generation) with
    | true => exact ⟨.nil, fun gen hgen => absurd hgen (Option.not_mem_none gen)⟩
    | false =>
      cases hjudged : around.cancelled (.judged p.generation) with
      | true => exact ⟨.nil, fun gen hgen => absurd hgen (Option.not_mem_none gen)⟩
      | false =>
        rw [hjudgedIn]
        dsimp only [Bool.false_eq_true, if_false]
        cases hverdict : (p.record (e.judgedIn G around t p)).verdict? e.settings with
        | some termination => exact ⟨.singleton _, by rintro _ ⟨⟩; rfl⟩
        | none =>
          obtain ⟨hrest, hhead⟩ := isChain_judgedFrom hcheck (h.next hbefore hjudged hverdict)
          refine ⟨List.isChain_cons.mpr ⟨fun gen hgen => ?_, hrest⟩, by rintro _ ⟨⟩; rfl⟩
          rw [hhead gen hgen]
          exact h.succession hcheck

/-- Each generation of a run has taken over the best candidates of the one before it. -/
theorem isChain_history (hcheck : e.settings.check = .ok ()) (around : Surroundings) (t : Tree) :
    (e.history G around t).IsChain (Succession e.settings) := by
  unfold history
  split
  · exact .nil
  · exact (Reaches.start.isChain_judgedFrom hcheck).1

/-- In a run that takes over elites the best total never falls from one generation to the next, however the run
is cancelled.  As many of the best candidates of a generation as are wanted and can be are in the next one, with
their texts and scores. -/
theorem run_keeps_elites (hcheck : e.settings.check = .ok ()) (ht : e.seed.tree? = .ok t)
    (helite : 0 < e.settings.selection.eliteCount) (around : Surroundings) :
    ∃ outcome, e.run G around = .ok (outcome, { e with phase := .terminated }) ∧
      let gens := e.history G around t
      outcome.stats.map GenerationStats.summary = gens.map Summary.ofPopulation ∧
      (∀ (i : Nat) (stat stat' : GenerationStats), outcome.stats[i]? = some stat → outcome.stats[i + 1]? = some stat' →
        stat.summary.best ≤ stat'.summary.best) ∧
      ∀ (i : Nat) (gen gen' : List Variant), gens[i]? = some gen → gens[i + 1]? = some gen' →
        (∀ v ∈ gen, v.score ≠ none) ∧ ∃ elites left newcomers : List Variant,
          elites.length = min e.settings.selection.eliteCount e.settings.populationSize ∧
          gen.Perm (elites ++ left) ∧ (∀ v ∈ elites, ∀ w ∈ left, atLeast v.total w.total = true) ∧
          gen' = newcomers ++ elites := by
  refine ⟨e.outcome G around t, run_eq ht, ?_⟩
  cases hseed : around.cancelled .seedJudged with
  | true =>
    have hnone : e.history G around t = [] := by rw [history, hseed]; rfl
    rw [outcome_eq_abandoned hseed, hnone]
    exact ⟨rfl, by simp [abandoned], by simp⟩
  | false =>
    obtain ⟨hkeeps, -, hunit⟩ := finish_keeps (G := G) (e := e) (t := t) hseed
    rw [outcome_eq_finish hseed]
    have hsuccession : ∀ (i : Nat) (gen gen' : List Variant), (e.history G around t)[i]? = some gen →
        (e.history G around t)[i + 1]? = some gen' → Succession e.settings gen gen' := by
      intro i gen gen' hgen hgen'
      obtain ⟨hi, rfl⟩ := List.getElem?_eq_some_iff.mp hgen
      obtain ⟨hi', rfl⟩ := List.getElem?_eq_some_iff.mp hgen'
      exact List.isChain_iff_getElem.mp (isChain_history hcheck around t) i hi'
    refine ⟨hkeeps.summaries, fun i stat stat' hstat hstat' => ?_, fun i gen gen' hgen hgen' => ?_⟩
    -- The statistics are the summaries of two generations, one after the other.
    · have hsummary : ∀ {j : Nat} {stat : GenerationStats}, (e.finish G around t).1.stats[j]? = some stat →
          ∃ gen, (e.history G around t)[j]? = some gen ∧ stat.summary = Summary.ofPopulation gen := by
        intro j stat hstat
        have hentry := congrArg (·[j]?) hkeeps.summaries
        rw [List.getElem?_map, hstat, List.getElem?_map] at hentry
        obtain ⟨gen, hgen, heq⟩ := Option.map_eq_some_iff.mp hentry.symm
        exact ⟨gen, hgen, heq.symm⟩
      obtain ⟨gen, hgen, hstat⟩ := hsummary hstat
      obtain ⟨gen', hgen', hstat'⟩ := hsummary hstat'
      rw [hstat, hstat']
      exact (hsuccession i gen gen' hgen hgen').best_le helite (EvolutionSettings.pos_of_check hcheck).1
        (fun v hv => (hunit gen (List.mem_of_getElem? hgen) v hv).isNaN_eq)
        (fun v hv => (hunit gen' (List.mem_of_getElem? hgen') v hv).isNaN_eq)
    · have h := hsuccession i gen gen' hgen hgen'
      exact ⟨h.scored, h.takesOver⟩

theorem run_keeps_elites_small : ∃ e t outcome, prepare smallProgram smallSettings = .ok e ∧
    e.settings.check = .ok () ∧ e.seed.tree? = .ok t ∧ 0 < e.settings.selection.eliteCount ∧
    e.run Generator {} = .ok (outcome, { e with phase := .terminated }) ∧
    ∀ (i : Nat) (stat stat' : GenerationStats), outcome.stats[i]? = some stat → outcome.stats[i + 1]? = some stat' →
      stat.summary.best ≤ stat'.summary.best := by
  obtain ⟨e, he⟩ := exists_smallRun
  obtain ⟨hcheck, hsettings, -, t, ht⟩ := prepare_eq_ok he
  have helite : 0 < e.settings.selection.eliteCount := by
    rw [hsettings]
    exact Nat.zero_lt_one
  obtain ⟨outcome, hrun, -, hbest, -⟩ := run_keeps_elites (G := Generator) hcheck ht helite {}
  exact ⟨e, t, outcome, he, hcheck, ht, helite, hrun, hbest⟩

end Evolution

end ProgramBreeding

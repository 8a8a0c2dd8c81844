import ProgramBreeding.Proofs.Breeding.Brood

/-!
# Scores are never stale

A score stays with a text: it is looked up when the text comes again, and it goes along with candidates that are
taken over, selected, or mutated without any effect.  As long as nobody disturbs a run, each of these scores is
the one that its text would get if it was judged at that time.  So a run that judges every candidate anew in every
generation has the same outcome.

## Main definitions

* `Judge.freshScore` — the score of a text that is judged undisturbed.
* `Surroundings.Quiet` — nobody disturbs a run.
* `Brood.Carries` — the scores of all that is made between two generations.
* `Evolution.rescored` — the outcome of a run that judges all candidates in every generation.
* `Evolution.Reaches.carries` — the scores in a state of a run.
* `Evolution.run_scores_fresh` — all scores of a run, and its outcome.

## Design notes

`rescored` neither looks a text up nor asks whether a candidate has a score.  Its generations are bred as those
of any run, so that old scores still come along, to no effect.
-/

namespace ProgramBreeding

open Chance

variable {G : Type} [RandomSource G]

/-! ### Undisturbed runs -/

/-- Nobody cancels a run, and no case takes longer than it may. -/
structure Surroundings.Quiet (around : Surroundings) : Prop where
  cancelled : ∀ moment, around.cancelled moment = false
  late : ∀ moment, around.late moment = false

/-- There is only one way for nothing to happen. -/
theorem Surroundings.Quiet.eq {around : Surroundings} (h : around.Quiet) : around = {} := by
  obtain ⟨cancelled, late⟩ := around
  have hcancelled : cancelled = fun _ => false := funext h.cancelled
  have hlate : late = fun _ => false := funext h.late
  rw [hcancelled, hlate]

namespace Judge

/-- The score of a text that is judged undisturbed. -/
def freshScore (judge : Judge) (source : String) : Score := judge.score {} ⟨source, none⟩

/-- A score of a text is the one that it would get now. -/
def Fresh (judge : Judge) (source : String) (score : Score) : Prop := score = judge.freshScore source

/-- A candidate that is judged anew, whatever score it has. -/
def rescore (judge : Judge) (v : Variant) : Variant := v.judged (judge.freshScore v.source)

/-- A candidate has a score, and it is the one that its text would get now. -/
def HasScored (judge : Judge) (v : Variant) : Prop := v.score = some (judge.freshScore v.source)

variable {judge : Judge} {v : Variant} {population : List Variant}

/-- Whether a candidate has a score already does not matter to the judge. -/
theorem score_eq_freshScore (judge : Judge) (v : Variant) : judge.score {} v = judge.freshScore v.source := by
  unfold freshScore score Variant.tree?
  rfl

theorem HasScored.carries (h : judge.HasScored v) : v.Carries judge.Fresh := by
  intro score hscore
  rw [h] at hscore
  cases hscore
  rfl

theorem hasScored_rescore (judge : Judge) (v : Variant) : judge.HasScored (judge.rescore v) := rfl

/-- A score that is kept or looked up is the one that the candidate would get now. -/
theorem judge_eq_rescore {memo : Memo} (hmemo : memo.Carries judge.Fresh) (hv : v.Carries judge.Fresh) :
    judge.judge memo {} v = judge.rescore v := by
  unfold Judge.judge
  split
  · rename_i score hscore
    have hfresh : score = judge.freshScore v.source := hv score hscore
    rw [rescore, ← hfresh, Variant.judged, ← hscore]
  · split
    · rename_i score hfound
      have hfresh : score = judge.freshScore v.source := hmemo.score? hfound
      rw [rescore, ← hfresh]
    · rw [score_eq_freshScore, rescore]

theorem judgeAll_eq_rescore {memo : Memo} (hmemo : memo.Carries judge.Fresh)
    (h : ∀ v ∈ population, v.Carries judge.Fresh) (generation : Nat) :
    judge.judgeAll memo {} generation population = population.map judge.rescore := by
  have hjudge : ∀ entry ∈ population.zipIdx,
      judge.judge memo (Surroundings.atCandidate {} generation entry.2) entry.1 = judge.rescore entry.1 :=
    fun entry hentry => judge_eq_rescore hmemo (h entry.1 (List.fst_mem_of_mem_zipIdx hentry))
  calc judge.judgeAll memo {} generation population
      = population.zipIdx.map (judge.rescore ∘ Prod.fst) := List.map_congr_left hjudge
    _ = (population.zipIdx.map Prod.fst).map judge.rescore := List.map_map.symm
    _ = population.map judge.rescore := by rw [List.zipIdx_map_fst]

end Judge

/-! ### Breeding -/

variable {P : String → Score → Prop}

/-- All scores between two generations are as they should be. -/
structure Brood.Carries (P : String → Score → Prop) (b : Brood) : Prop where
  pool : ∀ v ∈ b.pool, v.Carries P
  elites : ∀ v ∈ b.elites, v.Carries P
  births : ∀ birth ∈ b.births, birth.first.Carries P ∧ birth.second.Carries P ∧ birth.child.Carries P
  mutated : ∀ v ∈ b.mutated, v.Carries P

/-- A child has not been judged, whether it is made of both parents or a copy of one. -/
theorem Birth.IsFrom.unjudged {settings : EvolutionSettings} {pool : List Variant} {b : Birth}
    (h : b.IsFrom G settings pool) : b.child.score = none := by
  rcases h.child with ⟨g, hchild⟩ | hchild
  · rw [hchild]
    exact crossover_unjudged settings.crossover b.first b.second g
  · rw [hchild]
    rfl

/-- Mutation keeps a score only with its text. -/
theorem Mutator.carries_of_forall₂ (m : Mutator) {births : List Birth} {mutated : List Variant}
    (h : List.Forall₂ (fun birth v => ∃ g : G, v = (m.mutate birth.child g).1) births mutated)
    (hbirths : ∀ birth ∈ births, birth.child.Carries P) : ∀ v ∈ mutated, v.Carries P := by
  induction h with
  | nil => exact nofun
  | cons hfirst _ ih =>
    obtain ⟨hchild, hrest⟩ := List.forall_mem_cons.mp hbirths
    obtain ⟨g, rfl⟩ := hfirst
    exact List.forall_mem_cons.mpr ⟨m.mutate_carries hchild g, ih hrest⟩

theorem Brood.IsComplete.carries {settings : EvolutionSettings} {m : Mutator} {population : List Variant} {b : Brood}
    (h : b.IsComplete G settings m population) (hpopulation : ∀ v ∈ population, v.Carries P) : b.Carries P where
  pool v hv := hpopulation v (h.pool_subset hv)
  elites v hv := hpopulation v (h.elites_subset hv)
  births birth hbirth := by
    have hfrom := h.births birth hbirth
    refine ⟨hpopulation _ (h.pool_subset hfrom.first), hpopulation _ (h.pool_subset hfrom.second), ?_⟩
    exact Variant.carries_of_none hfrom.unjudged
  mutated := by
    refine m.carries_of_forall₂ h.mutated fun birth hbirth => ?_
    exact Variant.carries_of_none (h.births birth hbirth).unjudged

namespace Evolution

variable {e : Evolution} {around : Surroundings} {t : Tree} {remaining : Nat} {p : Progress} {g : G}

/-! ### States -/

theorem hasScored_judgedSeed (e : Evolution) (t : Tree) : (e.judge G t).HasScored (e.judgedSeed G {} t) :=
  congrArg some ((e.judge G t).score_eq_freshScore e.seed)

/-- In a state of an undisturbed run all scores are fresh. -/
theorem Reaches.carries (h : e.Reaches {} t remaining p g) : p.Carries (e.judge G t).Fresh := by
  induction h with
  | start =>
    have hseed := (hasScored_judgedSeed (G := G) e t).carries
    have hmutants := mutants_carries (G := G) e.mutator hseed (e.settings.populationSize - 1)
    exact .start hseed (hmutants (RandomSource.ofSeed e.settings.seed))
  | @next _ p g _ _ _ _ ih =>
    have hjudged : ∀ v ∈ e.judgedIn G {} t p, v.Carries (e.judge G t).Fresh :=
      Judge.judgeAll_carries ih.memo ih.population fun i v => (e.judge G t).score_eq_freshScore v
    exact (ih.record hjudged).breed e.settings e.mutator g

theorem Reaches.judgedIn_eq (h : e.Reaches {} t remaining p g) :
    e.judgedIn G {} t p = p.population.map (e.judge G t).rescore :=
  Judge.judgeAll_eq_rescore h.carries.memo h.carries.population p.generation

/-- A generation that was judged has fresh scores. -/
theorem Reaches.hasScored_of_mem_judgedIn (h : e.Reaches {} t remaining p g) :
    ∀ v ∈ e.judgedIn G {} t p, (e.judge G t).HasScored v := by
  intro v hv
  rw [h.judgedIn_eq] at hv
  obtain ⟨w, -, rfl⟩ := List.mem_map.mp hv
  exact Judge.hasScored_rescore (e.judge G t) w

/-- The best candidate so far and the last generation that was judged have fresh scores. -/
structure ShowsFresh (judge : Judge) (p : Progress) : Prop where
  best : judge.HasScored p.best
  judged : ∀ v ∈ p.judged, judge.HasScored v

theorem ShowsFresh.record {judge : Judge} {judged : List Variant} (h : ShowsFresh judge p)
    (hjudged : ∀ v ∈ judged, judge.HasScored v) : ShowsFresh judge (p.record judged) where
  best := by
    rcases p.record_best judged with hbest | hbest
    · rw [hbest]
      exact h.best
    · exact hjudged _ hbest
  judged := hjudged

theorem Reaches.showsFresh (h : e.Reaches {} t remaining p g) : ShowsFresh (e.judge G t) p := by
  induction h with
  | start =>
    have hseed := hasScored_judgedSeed (G := G) e t
    exact ⟨hseed, List.forall_mem_singleton.mpr hseed⟩
  | next h _ _ _ ih =>
    have hrecord := ih.record h.hasScored_of_mem_judgedIn
    exact ⟨hrecord.best, hrecord.judged⟩

theorem Ends.showsFresh {r : Progress × Termination} (h : e.Ends G {} t r) : ShowsFresh (e.judge G t) r.1 :=
  h.of_forall (fun _ _ _ hreaches => hreaches.showsFresh)
    fun _ _ _ hreaches _ => hreaches.showsFresh.record hreaches.hasScored_of_mem_judgedIn

/-! ### Judging anew -/

/-- Generations up to the end of an undisturbed run, at most so many, in each of which all candidates are
judged. -/
def rescoredFrom (settings : EvolutionSettings) (judge : Judge) (m : Mutator) :
    Nat → Progress → Draw G (Progress × Termination)
  | 0, p => return (p, .generationLimit)
  | remaining + 1, p => do
    let p := p.record (p.population.map judge.rescore)
    match p.verdict? settings with
    | some termination => return (p, termination)
    | none =>
      let next ← breed settings m p.population
      rescoredFrom settings judge m remaining { p with population := next }

/-- The outcome of an undisturbed run in which all candidates are judged in every generation. -/
def rescored (G : Type) [RandomSource G] (e : Evolution) (t : Tree) : Outcome :=
  let seed := (e.judge G t).rescore e.seed
  let act : Draw G (Progress × Termination) := do
    let others ← mutants e.mutator seed (e.settings.populationSize - 1)
    rescoredFrom e.settings (e.judge G t) e.mutator e.settings.generations (.start seed others)
  let ((p, termination), _) := act (RandomSource.ofSeed e.settings.seed)
  p.outcome ((e.judge G t).freshScore e.seed.source) termination

/-- From each of its states a run goes on as if all candidates were judged in every generation.  By induction
on the generations that may still be judged. -/
theorem Reaches.courseFrom_eq_rescoredFrom : ∀ {remaining : Nat} {p : Progress} {g : G},
    e.Reaches {} t remaining p g →
      (courseFrom e.settings (e.judge G t) e.mutator {} remaining p g).1 =
        (rescoredFrom e.settings (e.judge G t) e.mutator remaining p g).1
  | 0, p, g, _ => rfl
  | remaining + 1, p, g, h => by
    unfold rescoredFrom
    rw [← h.judgedIn_eq]
    cases hverdict : (p.record (e.judgedIn G {} t p)).verdict? e.settings with
    | some termination =>
      rw [courseFrom_settled rfl rfl hverdict]
      dsimp only
      rw [hverdict]
      rfl
    | none =>
      rw [courseFrom_after rfl rfl hverdict]
      have hrest := (h.next rfl rfl hverdict).courseFrom_eq_rescoredFrom
      dsimp only
      rw [hverdict]
      exact hrest

/-- A run that nobody disturbs has the outcome of one that judges all candidates in every generation. -/
theorem outcome_eq_rescored (G : Type) [RandomSource G] (e : Evolution) (t : Tree) :
    e.outcome G {} t = e.rescored G t := by
  have hseed : e.judgedSeed G {} t = (e.judge G t).rescore e.seed :=
    congrArg e.seed.judged ((e.judge G t).score_eq_freshScore e.seed)
  have hscore : (e.judge G t).score (Surroundings.atSeed {}) e.seed = (e.judge G t).freshScore e.seed.source :=
    (e.judge G t).score_eq_freshScore e.seed
  have hfinish : e.finish G {} t =
      (rescoredFrom e.settings (e.judge G t) e.mutator e.settings.generations
        (.start (e.judgedSeed G {} t) (e.firstMutants G {} t).1) (e.firstMutants G {} t).2).1 :=
    Reaches.start.courseFrom_eq_rescoredFrom
  rw [outcome_eq_finish rfl, hfinish, hscore]
  unfold rescored firstMutants
  rw [hseed]
  rfl

/-- In a run that nobody disturbs, every score is the one that its text would get if it was judged at that time:
in each state and each generation, in the memo, among parents, elites and children, and in the outcome, where
everybody has a score.  So the outcome is that of a run that judges all candidates in every generation. -/
theorem run_scores_fresh (hcheck : e.settings.check = .ok ()) (ht : e.seed.tree? = .ok t) (hquiet : around.Quiet) :
    ∃ outcome, e.run G around = .ok (outcome, { e with phase := .terminated }) ∧
      (∀ v ∈ outcome.best :: outcome.population, v.score = some ((e.judge G t).score {} ⟨v.source, none⟩)) ∧
      outcome = e.rescored G t ∧
      ∀ remaining p (g : G), e.Reaches around t remaining p g →
        p.Carries (e.judge G t).Fresh ∧
        (∀ v ∈ e.judgedIn G around t p, v.score = some ((e.judge G t).score {} ⟨v.source, none⟩)) ∧
        (p.record (e.judgedIn G around t p)).Carries (e.judge G t).Fresh ∧
        (brood e.settings e.mutator (e.judgedIn G around t p) g).1.Carries (e.judge G t).Fresh := by
  obtain rfl := hquiet.eq
  refine ⟨e.outcome G {} t, run_eq ht, ?_, outcome_eq_rescored G e t, ?_⟩
  · have hshown := (finish_ends G e {} t).showsFresh
    rw [outcome_eq_finish rfl]
    refine List.forall_mem_cons.mpr ⟨hshown.best, fun v hv => ?_⟩
    exact hshown.judged v ((bestFirst_perm _).subset hv)
  · intro remaining p g hreaches
    have hjudged := hreaches.hasScored_of_mem_judgedIn
    have hcarries : ∀ v ∈ e.judgedIn G {} t p, v.Carries (e.judge G t).Fresh := fun v hv => (hjudged v hv).carries
    have hsize : (e.judgedIn G {} t p).length = e.settings.populationSize := by
      rw [judgedIn_length]
      exact hreaches.length_population hcheck
    refine ⟨hreaches.carries, hjudged, hreaches.carries.record hcarries, ?_⟩
    exact (brood_isComplete hcheck e.mutator hsize g).carries hcarries

theorem run_scores_fresh_small : ∃ e t outcome, prepare smallProgram smallSettings = .ok e ∧
    e.seed.tree? = .ok t ∧ Surroundings.Quiet {} ∧ e.run Generator {} = .ok (outcome, { e with phase := .terminated }) ∧
    outcome = e.rescored Generator t := by
  obtain ⟨e, he⟩ := exists_smallRun
  obtain ⟨hcheck, -, -, t, ht⟩ := prepare_eq_ok he
  have hquiet : Surroundings.Quiet {} := ⟨fun _ => rfl, fun _ => rfl⟩
  obtain ⟨outcome, hrun, -, hrescored, -⟩ := run_scores_fresh (G := Generator) hcheck ht hquiet
  exact ⟨e, t, outcome, he, ht, hquiet, hrun, hrescored⟩

end Evolution

end ProgramBreeding

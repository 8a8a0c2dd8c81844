import ProgramBreeding.Proofs.Breeding.Best
import ProgramBreeding.Proofs.Breeding.Rescoring

/-!
# Cancelled runs

A run may be cancelled at any time, also while candidates are judged.  These get scores all the same, but of a
part of their cases only.  The run looks at the cancel flag again before it makes use of any score: so nothing
that it has come to depends on a cancelled case, and what it comes to is the beginning of the run that nobody
cancels.

## Main definitions

* `Moment.stage` — the order in which a run looks at the cancel flag.
* `Surroundings.Orderly` — the cancel flag is not taken back.
* `Evolution.Reaches.undisturbed` — a run that is cancelled later is in a state of the run that nobody cancels.
* `Evolution.Ends.undisturbed` — how a run ends, compared with that run.
* `Evolution.run_cancelled_whole` — the outcome of a run that may be cancelled.

## Design notes

Candidates of one generation may be judged at the same time, so nothing is said about the order of what their
cases find: a flag that is set meanwhile may be found by any of them.
-/

namespace ProgramBreeding

open Chance

variable {G : Type} [RandomSource G]

/-! ### The cancel flag -/

/-- The order in which a run looks at the cancel flag.  While candidates are judged there is no order. -/
def Moment.stage : Moment → Nat
  | .judgingSeed .. => 0
  | .seedJudged => 1
  | .before generation => 3 * generation + 2
  | .judging generation .. => 3 * generation + 3
  | .judged generation => 3 * generation + 4

/-- The cancel flag, once it is found, is found from then on; and no case takes longer than it may. -/
structure Surroundings.Orderly (around : Surroundings) : Prop where
  cancelled : ∀ moment later : Moment, moment.stage < later.stage →
    around.cancelled moment = true → around.cancelled later = true
  late : ∀ moment, around.late moment = false

namespace Surroundings.Orderly

variable {around : Surroundings}

/-- A flag that is not found was not there before. -/
theorem clear (h : around.Orderly) {moment later : Moment} (hlater : around.cancelled later = false)
    (hlt : moment.stage < later.stage) : around.cancelled moment = false := by
  by_contra hset
  rw [Bool.not_eq_false] at hset
  rw [h.cancelled moment later hlt hset] at hlater
  cases hlater

/-- The first program was judged undisturbed if the run is not cancelled afterwards. -/
theorem atSeed_eq (h : around.Orderly) (hseed : around.cancelled .seedJudged = false) :
    around.atSeed = Surroundings.atSeed {} := by
  have hcancelled : (fun case used => around.cancelled (.judgingSeed case used)) = fun _ _ => false :=
    funext₂ fun case used => h.clear hseed Nat.zero_lt_one
  have hlate : (fun case used => around.late (.judgingSeed case used)) = fun _ _ => false :=
    funext₂ fun case used => h.late _
  unfold atSeed
  rw [hcancelled, hlate]

/-- So were all candidates of a generation. -/
theorem atCandidate_eq (h : around.Orderly) {generation : Nat} (hjudged : around.cancelled (.judged generation) = false)
    (candidate : Nat) : around.atCandidate generation candidate = Surroundings.atCandidate {} generation candidate := by
  have hcancelled : (fun case used => around.cancelled (.judging generation candidate case used)) =
      fun _ _ => false :=
    funext₂ fun case used => h.clear hjudged (Nat.lt_succ_self _)
  have hlate : (fun case used => around.late (.judging generation candidate case used)) = fun _ _ => false :=
    funext₂ fun case used => h.late _
  unfold atCandidate
  rw [hcancelled, hlate]

end Surroundings.Orderly

/-- There is one entry for each generation in the statistics. -/
theorem Progress.Keeps.length_stats {seed : Variant} {gens : List (List Variant)} {p : Progress}
    (h : p.Keeps seed gens) : p.stats.length = p.generation := by
  rw [← List.length_map GenerationStats.summary, h.summaries, List.length_map, h.generation]

namespace Evolution

variable {e : Evolution} {around : Surroundings} {t : Tree} {remaining : Nat} {p : Progress} {g : G}

/-! ### States -/

theorem judgedSeed_undisturbed (horderly : around.Orderly) (hseed : around.cancelled .seedJudged = false) :
    e.judgedSeed G around t = e.judgedSeed G {} t := by
  unfold judgedSeed
  rw [horderly.atSeed_eq hseed]

theorem firstMutants_undisturbed (horderly : around.Orderly) (hseed : around.cancelled .seedJudged = false) :
    e.firstMutants G around t = e.firstMutants G {} t := by
  unfold firstMutants
  rw [judgedSeed_undisturbed horderly hseed]

theorem judgedIn_undisturbed (horderly : around.Orderly) (hjudged : around.cancelled (.judged p.generation) = false) :
    e.judgedIn G around t p = e.judgedIn G {} t p := by
  unfold judgedIn Judge.judgeAll
  refine List.map_congr_left fun entry _ => ?_
  dsimp only
  rw [horderly.atCandidate_eq hjudged]

/-- A run that is cancelled later is in a state of the run that nobody cancels. -/
theorem Reaches.undisturbed (h : e.Reaches around t remaining p g) (horderly : around.Orderly)
    (hseed : around.cancelled .seedJudged = false) : e.Reaches {} t remaining p g := by
  induction h with
  | start =>
    rw [judgedSeed_undisturbed horderly hseed, firstMutants_undisturbed horderly hseed]
    exact .start
  | @next _ p g _ _ hjudged hverdict ih =>
    have hsame := judgedIn_undisturbed (G := G) (e := e) (t := t) horderly hjudged
    have hafter : e.after around t p g = e.after {} t p g := by
      unfold after
      rw [hsame]
    -- The verdict is one on scores that no cancellation has touched.
    rw [hsame] at hverdict
    rw [hafter]
    exact ih.next rfl rfl hverdict

/-! ### Ends -/

/-- A run that may be cancelled ends as the run that nobody cancels, or in one of its states. -/
theorem Ends.undisturbed {r : Progress × Termination} (h : e.Ends G around t r) (horderly : around.Orderly)
    (hseed : around.cancelled .seedJudged = false) :
    e.Ends G {} t r ∨ r.2 = .cancelled ∧
      (around.cancelled (.before r.1.generation) = true ∨ around.cancelled (.judged r.1.generation) = true) ∧
      ∃ (remaining : Nat) (g : G), e.Reaches {} t remaining r.1 g := by
  cases h with
  | exhausted h => exact .inl (.exhausted (h.undisturbed horderly hseed))
  | cancelled h hseen => exact .inr ⟨rfl, hseen, _, _, h.undisturbed horderly hseed⟩
  | settled h _ hjudged hverdict =>
    have hsame := judgedIn_undisturbed (G := G) (e := e) (t := t) horderly hjudged
    rw [hsame] at hverdict ⊢
    exact .inl (.settled (h.undisturbed horderly hseed) rfl rfl hverdict)

/-- The statistics of a run only grow. -/
theorem Reaches.stats_prefix (h : e.Reaches around t remaining p g) : p.stats <+: (e.finish G around t).1.stats := by
  rw [h.finish]
  refine courseFrom_invariant (I := fun _ q => p.stats <+: q.stats) (fun _ q hq => ?_) (fun _ _ _ hq => hq)
    remaining [] p g (List.prefix_refl _)
  exact hq.trans (List.prefix_append ..)

/-- What a run that may be cancelled comes to is what the run that nobody cancels has come to after as many
generations. -/
structure Truncates (G : Type) [RandomSource G] (e : Evolution) (t : Tree) (p : Progress) : Prop where
  upTo : (e.upTo G {} t p.generation).1 = p
  stats : p.stats <+: (e.finish G {} t).1.stats
  showsFresh : ShowsFresh (e.judge G t) p

theorem Reaches.truncates (h : e.Reaches {} t remaining p g) : e.Truncates G t p :=
  ⟨h.upTo_generation, h.stats_prefix, h.showsFresh⟩

theorem Ends.truncates {r : Progress × Termination} (h : e.Ends G {} t r) : e.Truncates G t r.1 where
  upTo := h.upTo_generation
  stats := by rw [h.finish_eq]
  showsFresh := h.showsFresh

/-! ### Outcomes -/

/-- A run may be cancelled at any time, once and for all.  If it was by the time at which its first program has
been judged, it leaves everything as it was.  Otherwise each score in its outcome is that of a candidate that was
judged undisturbed, the population is the last generation that was judged completely, and the best candidate,
the statistics and the population are those that the run would have come to after so many generations if nobody
had cancelled it.  Unless the flag is found in the end, the outcome is that of this run. -/
theorem run_cancelled_whole (ht : e.seed.tree? = .ok t) (horderly : around.Orderly) :
    ∃ outcome, e.run G around = .ok (outcome, { e with phase := .terminated }) ∧
      outcome.stats.length = outcome.generations ∧
      (around.cancelled .seedJudged = true ∧ outcome.best = ⟨e.seed.source, none⟩ ∧
        outcome.population = [⟨e.seed.source, none⟩] ∧ outcome.generations = 0 ∧ outcome.termination = .cancelled ∨
      around.cancelled .seedJudged = false ∧
        (∀ v ∈ outcome.best :: outcome.population, v.score = some ((e.judge G t).score {} ⟨v.source, none⟩)) ∧
        outcome.population = bestFirst ((e.history G around t).getLastD [e.judgedSeed G {} t]) ∧
        (let truncated := (e.upTo G {} t outcome.generations).1
        outcome.best = truncated.best ∧ outcome.stats = truncated.stats ∧
          outcome.population = bestFirst truncated.judged) ∧
        outcome.stats = (e.outcome G {} t).stats.take outcome.generations ∧
        (outcome = e.outcome G {} t ∨ outcome.termination = .cancelled ∧
          (around.cancelled (.before outcome.generations) = true ∨
            around.cancelled (.judged outcome.generations) = true))) := by
  refine ⟨e.outcome G around t, run_eq ht, ?_⟩
  cases hseed : around.cancelled .seedJudged with
  | true =>
    rw [outcome_eq_abandoned hseed]
    exact ⟨rfl, .inl ⟨rfl, rfl, rfl, rfl, rfl⟩⟩
  | false =>
    obtain ⟨hkeeps, -⟩ := finish_keeps (G := G) (e := e) (t := t) hseed
    have hends := (finish_ends G e around t).undisturbed horderly hseed
    have htruncates : e.Truncates G t (e.finish G around t).1 := by
      rcases hends with hends | ⟨-, -, _, _, hreaches⟩
      · exact hends.truncates
      · exact hreaches.truncates
    have hlength := hkeeps.length_stats
    have hlast : (e.finish G around t).1.judged = (e.history G around t).getLastD [e.judgedSeed G {} t] := by
      rw [hkeeps.judged, judgedSeed_undisturbed horderly hseed]
    have hquiet : e.outcome G {} t = (e.finish G {} t).1.outcome ((e.judge G t).score (Surroundings.atSeed {}) e.seed)
        (e.finish G {} t).2 := outcome_eq_finish rfl
    rw [outcome_eq_finish hseed, hquiet]
    refine ⟨hlength, .inr ⟨rfl, ?_, ?_, ?_, ?_, ?_⟩⟩
    · refine List.forall_mem_cons.mpr ⟨htruncates.showsFresh.best, fun v hv => ?_⟩
      exact htruncates.showsFresh.judged v ((bestFirst_perm _).subset hv)
    · exact congrArg bestFirst hlast
    · intro truncated
      have htruncated : truncated = (e.finish G around t).1 := htruncates.upTo
      rw [htruncated]
      exact ⟨rfl, rfl, rfl⟩
    · have htake := List.prefix_iff_eq_take.mp htruncates.stats
      rw [hlength] at htake
      exact htake
    · rcases hends with hends | ⟨htermination, hseen, -⟩
      · left
        rw [hends.finish_eq, horderly.atSeed_eq hseed]
      · exact .inr ⟨htermination, hseen⟩

/-- A run is cancelled while the second candidate of the second generation is judged. -/
def cancelledWithin : Surroundings where
  cancelled
    | .judging 1 1 _ _ => true
    | moment => 6 < moment.stage

theorem cancelledWithin_orderly : cancelledWithin.Orderly := by
  have hfound : ∀ moment, cancelledWithin.cancelled moment = true → 5 < moment.stage := by
    intro moment hset
    unfold cancelledWithin at hset
    dsimp only at hset
    split at hset
    · exact Nat.lt_succ_self 5
    · exact Nat.lt_of_succ_lt (of_decide_eq_true hset)
  refine ⟨fun moment later hlt hset => ?_, fun _ => rfl⟩
  have hlater : 6 < later.stage := Nat.lt_of_le_of_lt (hfound moment hset) hlt
  unfold cancelledWithin
  dsimp only
  split
  · rfl
  · exact decide_eq_true hlater

theorem run_cancelled_whole_within : ∃ e t outcome, prepare smallProgram smallSettings = .ok e ∧
    e.seed.tree? = .ok t ∧ cancelledWithin.Orderly ∧
    e.run Generator cancelledWithin = .ok (outcome, { e with phase := .terminated }) ∧
    outcome.stats.length = outcome.generations ∧
    outcome.stats = (e.outcome Generator {} t).stats.take outcome.generations := by
  obtain ⟨e, he⟩ := exists_smallRun
  obtain ⟨-, -, -, t, ht⟩ := prepare_eq_ok he
  obtain ⟨outcome, hrun, hlength, hcase⟩ := run_cancelled_whole (G := Generator) ht cancelledWithin_orderly
  refine ⟨e, t, outcome, he, ht, cancelledWithin_orderly, hrun, hlength, ?_⟩
  rcases hcase with ⟨hseed, -⟩ | ⟨-, -, -, -, hstats, -⟩
  · cases hseed
  · exact hstats

end Evolution

end ProgramBreeding

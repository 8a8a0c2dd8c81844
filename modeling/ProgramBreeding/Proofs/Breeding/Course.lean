import ProgramBreeding.Proofs.Breeding.Generations

/-!
# The course of a run

A run passes through one state for each generation: what it has come to when the generation is about to be
judged, and the state of the source of random numbers.  Whatever is said about all states of a run is proved
for the first one and for the step from each to the next; whatever is said about its outcome, for the ways
in which it ends.

## Main definitions

* `Evolution.judgedIn` — the generation of a state with all its scores.
* `Evolution.Reaches` — the states that a run passes through.
* `Evolution.upTo` — what a run comes to when it is left after some generations.
* `Evolution.Reaches.resume` — from each of its states a run goes on to its end.
* `Evolution.Ends`, `Evolution.finish_ends` — the ways in which a run ends.
* `Evolution.exists_reaches_of_mem_history` — the generations of a run are those of its states.
* `Evolution.exists_smallRun` — a run to speak of.

## Design notes

`Reaches` counts the generations that may still be judged, so that `resume` can tie each state to the loop
that is run: the states are not a second account of a run beside the first.
-/

namespace ProgramBreeding

open Chance

/-- Settings that are not refused let generations have candidates, and let one generation be judged. -/
theorem EvolutionSettings.pos_of_check {settings : EvolutionSettings} (h : settings.check = .ok ()) :
    0 < settings.populationSize ∧ 0 < settings.generations := by
  unfold check at h
  by_cases hsize : settings.populationSize = 0
  · rw [if_pos hsize] at h
    cases h
  · by_cases hcount : settings.generations = 0
    · rw [if_neg hsize, if_pos hcount] at h
      cases h
    · exact ⟨Nat.pos_of_ne_zero hsize, Nat.pos_of_ne_zero hcount⟩

/-- A run that can be prepared has sound settings and a program. -/
theorem Evolution.prepare_eq_ok {text : String} {settings : EvolutionSettings} {e : Evolution}
    (h : prepare text settings = .ok e) :
    e.settings.check = .ok () ∧ e.settings = settings ∧ e.seed.source = text ∧ ∃ t, e.seed.tree? = .ok t := by
  unfold prepare at h
  split at h
  · cases h
  · rename_i hcheck
    split at h
    · cases h
    · rename_i t htree
      cases h
      exact ⟨hcheck, rfl, rfl, t, htree⟩

/-- What a run has come to, as its outcome. -/
def Progress.outcome (p : Progress) (seedScore : Score) (termination : Termination) : Outcome where
  best := p.best
  seedScore := seedScore
  population := bestFirst p.judged
  generations := p.generation
  stats := p.stats
  termination := termination

namespace Evolution

variable {G : Type} [RandomSource G] {e : Evolution} {around : Surroundings} {t : Tree} {remaining : Nat} {p : Progress}
  {g : G}

/-- A run that is cancelled by the time at which its first program has been judged leaves everything as it was. -/
theorem outcome_eq_abandoned (h : around.cancelled .seedJudged = true) : e.outcome G around t = abandoned e.seed := by
  rw [outcome, outcomeWith, h]
  rfl

/-- The outcome of a run that is not cancelled before its first generation is what it comes to. -/
theorem outcome_eq_finish (h : around.cancelled .seedJudged = false) :
    e.outcome G around t =
      (e.finish G around t).1.outcome ((e.judge G t).score around.atSeed e.seed) (e.finish G around t).2 :=
  outcome_eq h

/-! ### States -/

/-- The generation of a state with the scores of all candidates. -/
def judgedIn (G : Type) [RandomSource G] (e : Evolution) (around : Surroundings) (t : Tree) (p : Progress) :
    List Variant :=
  (e.judge G t).judgeAll p.memo around p.generation p.population

/-- The mutants of the first program that belong to the first generation, and the state of the source after
them. -/
def firstMutants (G : Type) [RandomSource G] (e : Evolution) (around : Surroundings) (t : Tree) :
    List Variant × G :=
  mutants e.mutator (e.judgedSeed G around t) (e.settings.populationSize - 1) (RandomSource.ofSeed e.settings.seed)

/-- The state after one in which a generation is judged and the next one is bred. -/
def after (e : Evolution) (around : Surroundings) (t : Tree) (p : Progress) (g : G) : Progress × G :=
  let (next, g) := breed e.settings e.mutator (e.judgedIn G around t p) g
  ({ p.record (e.judgedIn G around t p) with population := next }, g)

/-- The states that a run passes through, when a generation is about to be judged: with the number of
generations that may still be judged and the state of the source. -/
inductive Reaches (e : Evolution) (around : Surroundings) (t : Tree) : Nat → Progress → G → Prop
  | start : Reaches e around t e.settings.generations
      (.start (e.judgedSeed G around t) (e.firstMutants G around t).1) (e.firstMutants G around t).2
  | next {remaining : Nat} {p : Progress} {g : G} (h : Reaches e around t (remaining + 1) p g)
      (hbefore : around.cancelled (.before p.generation) = false)
      (hjudged : around.cancelled (.judged p.generation) = false)
      (hverdict : (p.record (e.judgedIn G around t p)).verdict? e.settings = none) :
      Reaches e around t remaining (e.after around t p g).1 (e.after around t p g).2

/-- What a run comes to when it is left after so many generations. -/
def upTo (G : Type) [RandomSource G] (e : Evolution) (around : Surroundings) (t : Tree) (count : Nat) :
    Progress × Termination :=
  (courseFrom e.settings (e.judge G t) e.mutator around count
    (.start (e.judgedSeed G around t) (e.firstMutants G around t).1) (e.firstMutants G around t).2).1

theorem upTo_generations : e.upTo G around t e.settings.generations = e.finish G around t := rfl

theorem Reaches.generation_add (h : e.Reaches around t remaining p g) :
    p.generation + remaining = e.settings.generations := by
  induction h with
  | start => exact Nat.zero_add _
  | next _ _ _ _ ih =>
    rw [← ih]
    exact Nat.add_right_comm ..

/-! ### One generation -/

/-- After a generation that is neither cancelled nor the last, the run is in the next state. -/
theorem courseFrom_after (hbefore : around.cancelled (.before p.generation) = false)
    (hjudged : around.cancelled (.judged p.generation) = false)
    (hverdict : (p.record (e.judgedIn G around t p)).verdict? e.settings = none) (count : Nat) :
    courseFrom e.settings (e.judge G t) e.mutator around (count + 1) p g =
      courseFrom e.settings (e.judge G t) e.mutator around count (e.after around t p g).1
        (e.after around t p g).2 :=
  courseFrom_next hbefore hjudged hverdict count

/-! ### The whole course -/

/-- From each of its states a run goes on as from its start. -/
theorem Reaches.resume (h : e.Reaches around t remaining p g) : ∀ count ≤ remaining,
    e.upTo G around t (p.generation + count) =
      (courseFrom e.settings (e.judge G t) e.mutator around count p g).1 := by
  induction h with
  | start =>
    intro count _
    rw [show (Progress.start _ _).generation + count = count from Nat.zero_add count]
    rfl
  | @next remaining p g h hbefore hjudged hverdict ih =>
    intro count hcount
    have hgeneration : (e.after around t p g).1.generation + count = p.generation + (count + 1) :=
      Nat.add_right_comm ..
    rw [hgeneration, ih (count + 1) (Nat.succ_le_succ hcount), courseFrom_after hbefore hjudged hverdict]

/-- A run that is left after as many generations as a state has behind it is in that state. -/
theorem Reaches.upTo_generation (h : e.Reaches around t remaining p g) : (e.upTo G around t p.generation).1 = p := by
  have hresume := h.resume 0 (Nat.zero_le _)
  rw [Nat.add_zero] at hresume
  rw [hresume]
  rfl

/-- From each of its states a run goes on to its end. -/
theorem Reaches.finish (h : e.Reaches around t remaining p g) :
    e.finish G around t = (courseFrom e.settings (e.judge G t) e.mutator around remaining p g).1 := by
  rw [← h.resume remaining (Nat.le_refl _), h.generation_add, upTo_generations]

/-- The ways in which a run ends, with what it has come to. -/
inductive Ends (G : Type) [RandomSource G] (e : Evolution) (around : Surroundings) (t : Tree) :
    Progress × Termination → Prop
  /-- No generation may be judged any more. -/
  | exhausted {p : Progress} {g : G} (h : e.Reaches around t 0 p g) : Ends G e around t (p, .generationLimit)
  /-- The run was cancelled before a generation or while it was judged. -/
  | cancelled {remaining : Nat} {p : Progress} {g : G} (h : e.Reaches around t (remaining + 1) p g)
      (hseen : around.cancelled (.before p.generation) = true ∨ around.cancelled (.judged p.generation) = true) :
      Ends G e around t (p, .cancelled)
  /-- The generation that was judged is the last. -/
  | settled {remaining : Nat} {p : Progress} {g : G} {termination : Termination}
      (h : e.Reaches around t (remaining + 1) p g)
      (hbefore : around.cancelled (.before p.generation) = false)
      (hjudged : around.cancelled (.judged p.generation) = false)
      (hverdict : (p.record (e.judgedIn G around t p)).verdict? e.settings = some termination) :
      Ends G e around t (p.record (e.judgedIn G around t p), termination)

/-- A run that has come to one of its states ends in one of these ways.  By induction on the generations that
may still be judged. -/
theorem Reaches.ends : ∀ {remaining : Nat} {p : Progress} {g : G}, e.Reaches around t remaining p g →
    e.Ends G around t (courseFrom e.settings (e.judge G t) e.mutator around remaining p g).1
  | 0, p, g, h => .exhausted h
  | remaining + 1, p, g, h => by
    by_cases hseen : around.cancelled (.before p.generation) = true ∨ around.cancelled (.judged p.generation) = true
    · rw [courseFrom_cancelled hseen]
      exact .cancelled h hseen
    · obtain ⟨hbefore, hjudged⟩ := not_or.mp hseen
      rw [Bool.not_eq_true] at hbefore hjudged
      cases hverdict : (p.record (e.judgedIn G around t p)).verdict? e.settings with
      | some termination =>
        rw [courseFrom_settled hbefore hjudged hverdict]
        exact .settled h hbefore hjudged hverdict
      | none =>
        rw [courseFrom_after hbefore hjudged hverdict]
        exact (h.next hbefore hjudged hverdict).ends

theorem finish_ends (G : Type) [RandomSource G] (e : Evolution) (around : Surroundings) (t : Tree) :
    e.Ends G around t (e.finish G around t) :=
  Reaches.start.ends

/-- A run that could end in some way ends so. -/
theorem Ends.finish_eq {r : Progress × Termination} (h : e.Ends G around t r) : e.finish G around t = r := by
  cases h with
  | exhausted h => exact h.finish
  | cancelled h hseen => exact h.finish.trans (congrArg Prod.fst (courseFrom_cancelled hseen _))
  | settled h hbefore hjudged hverdict =>
    exact h.finish.trans (congrArg Prod.fst (courseFrom_settled hbefore hjudged hverdict _))

/-- A run that has come to its end was left after the generations that it judged. -/
theorem Ends.upTo_generation {r : Progress × Termination} (h : e.Ends G around t r) :
    (e.upTo G around t r.1.generation).1 = r.1 := by
  cases h with
  | exhausted h => exact h.upTo_generation
  | cancelled h _ => exact h.upTo_generation
  | settled h hbefore hjudged hverdict =>
    have hresume := h.resume 1 (Nat.le_add_left ..)
    rw [courseFrom_settled hbefore hjudged hverdict] at hresume
    exact congrArg Prod.fst hresume

/-- What every state and every judged generation of a run keeps holds of what the run comes to. -/
theorem Ends.of_forall {P : Progress → Prop} {r : Progress × Termination} (h : e.Ends G around t r)
    (hstate : ∀ remaining p (g : G), e.Reaches around t remaining p g → P p)
    (hjudged : ∀ remaining p (g : G), e.Reaches around t remaining p g →
      around.cancelled (.judged p.generation) = false → P (p.record (e.judgedIn G around t p))) : P r.1 := by
  cases h with
  | exhausted h => exact hstate _ _ _ h
  | cancelled h _ => exact hstate _ _ _ h
  | settled h _ hcomplete _ => exact hjudged _ _ _ h hcomplete

/-- The generations that are judged completely from a state on are those of the states after it.  By induction
on the generations that may still be judged. -/
theorem Reaches.exists_of_mem_judgedFrom : ∀ {remaining : Nat} {p : Progress} {g : G},
    e.Reaches around t remaining p g →
    ∀ gen ∈ (judgedFrom e.settings (e.judge G t) e.mutator around remaining p g).1,
      ∃ (remaining' : Nat) (p' : Progress) (g' : G),
        e.Reaches around t remaining' p' g' ∧ gen = e.judgedIn G around t p'
  | 0, p, g, _ => fun gen hgen => absurd hgen List.not_mem_nil
  | remaining + 1, p, g, h => by
    intro gen hgen
    unfold judgedFrom at hgen
    cases hbefore : around.cancelled (.before p.generation) with
    | true =>
      rw [hbefore] at hgen
      exact absurd hgen List.not_mem_nil
    | false =>
      cases hjudged : around.cancelled (.judged p.generation) with
      | true =>
        rw [hbefore, hjudged] at hgen
        exact absurd hgen List.not_mem_nil
      | false =>
        rw [hbefore, hjudged] at hgen
        dsimp only [Bool.false_eq_true, if_false] at hgen
        have hjudgedIn : (e.judge G t).judgeAll p.memo around p.generation p.population = e.judgedIn G around t p := rfl
        rw [hjudgedIn] at hgen
        cases hverdict : (p.record (e.judgedIn G around t p)).verdict? e.settings with
        | some termination =>
          rw [hverdict] at hgen
          exact ⟨_, p, g, h, List.mem_singleton.mp hgen⟩
        | none =>
          rw [hverdict] at hgen
          rcases List.mem_cons.mp hgen with rfl | hgen
          · exact ⟨_, p, g, h, rfl⟩
          · exact (h.next hbefore hjudged hverdict).exists_of_mem_judgedFrom gen hgen

/-- The generations of a run are those of its states. -/
theorem exists_reaches_of_mem_history {gen : List Variant} (h : gen ∈ e.history G around t) :
    ∃ (remaining : Nat) (p : Progress) (g : G), e.Reaches around t remaining p g ∧ gen = e.judgedIn G around t p := by
  unfold history at h
  split at h
  · exact absurd h List.not_mem_nil
  · exact Reaches.start.exists_of_mem_judgedFrom gen h

/-! ### A small run -/

/-- Settings for a few small generations, in each of which the best candidate is taken over. -/
def smallSettings : EvolutionSettings := { populationSize := 4, generations := 3, selection := { eliteCount := 1 } }

/-- A program in which something is superfluous. -/
def smallProgram : String := "def f(n):\n    return n + 0\n"

theorem exists_smallRun : ∃ e, prepare smallProgram smallSettings = .ok e := by
  have hprepared : (prepare smallProgram smallSettings).isOk = true := by decide +kernel
  cases hrun : prepare smallProgram smallSettings with
  | ok e => exact ⟨e, rfl⟩
  | error reason =>
    rw [hrun] at hprepared
    cases hprepared

end Evolution

end ProgramBreeding

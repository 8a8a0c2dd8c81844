import ProgramBreeding.Proofs.Breeding.Selection

/-!
# Generation by generation

A run judges one generation after the other and breeds the next from each.  What holds at its start, and is
kept when a generation is judged and when one is bred, holds at its end.

## Main definitions

* `Evolution.judgedFrom`, `Evolution.history` — the generations of a run that were judged completely.
* `Evolution.courseFrom` — the course of a run that nobody observes.
* `Evolution.courseFrom_invariant` — what every generation keeps, every run keeps.
* `Variant.Carries` — a candidate whose score, if it has one, is as it should be for its text.
* `Evolution.breed_carries` — breeding brings in no other scores.
* `Progress.Carries` — the same of all that a run has come to.

## Design notes

The generations themselves are gone when a run is over, but for the last one.  `judgedFrom` makes the same
draws as `courseFrom` and keeps them.
-/

namespace ProgramBreeding

open Chance

/-! ### The generations of a run -/

variable {G : Type} [RandomSource G]

namespace Evolution

/-- The generations that are judged completely up to the end of the run, at most so many. -/
def judgedFrom (settings : EvolutionSettings) (judge : Judge) (m : Mutator) (around : Surroundings) :
    Nat → Progress → Draw G (List (List Variant))
  | 0, _ => return []
  | remaining + 1, p => do
    if around.cancelled (.before p.generation) then return []
    let judged := judge.judgeAll p.memo around p.generation p.population
    if around.cancelled (.judged p.generation) then return []
    match (p.record judged).verdict? settings with
    | some _ => return [judged]
    | none =>
      let next ← breed settings m judged
      return judged :: (← judgedFrom settings judge m around remaining { p.record judged with population := next })

/-- Generations up to the end of a run that nobody observes, at most so many. -/
def courseFrom (settings : EvolutionSettings) (judge : Judge) (m : Mutator) (around : Surroundings) (remaining : Nat)
    (p : Progress) : Draw G (Progress × Termination) := do
  return (← generationsFrom (fun _ _ => ()) settings judge m around remaining () p).2

section

variable {settings : EvolutionSettings} {judge : Judge} {m : Mutator} {around : Surroundings} {p : Progress} {g : G}

/-- A generation may be cancelled before or while it is judged. -/
theorem courseFrom_cancelled
    (hseen : around.cancelled (.before p.generation) = true ∨ around.cancelled (.judged p.generation) = true)
    (remaining : Nat) : courseFrom settings judge m around (remaining + 1) p g = ((p, .cancelled), g) := by
  unfold courseFrom
  rw [generationsFrom]
  cases hbefore : around.cancelled (.before p.generation) with
  | true => rfl
  | false =>
    rw [hseen.resolve_left (by simp [hbefore])]
    rfl

/-- A generation that is not cancelled may be the last. -/
theorem courseFrom_settled (hbefore : around.cancelled (.before p.generation) = false)
    (hjudged : around.cancelled (.judged p.generation) = false) {termination : Termination}
    (hverdict : (p.record (judge.judgeAll p.memo around p.generation p.population)).verdict? settings =
      some termination) (remaining : Nat) :
    courseFrom settings judge m around (remaining + 1) p g =
      ((p.record (judge.judgeAll p.memo around p.generation p.population), termination), g) := by
  unfold courseFrom
  rw [generationsFrom, hbefore, hjudged]
  dsimp only [Bool.false_eq_true, if_false]
  rw [hverdict]
  rfl

/-- After a generation that is neither cancelled nor the last, the next one is bred. -/
theorem courseFrom_next (hbefore : around.cancelled (.before p.generation) = false)
    (hjudged : around.cancelled (.judged p.generation) = false)
    (hverdict : (p.record (judge.judgeAll p.memo around p.generation p.population)).verdict? settings = none)
    (remaining : Nat) :
    courseFrom settings judge m around (remaining + 1) p g =
      let judged := judge.judgeAll p.memo around p.generation p.population
      courseFrom settings judge m around remaining
        { p.record judged with population := (breed settings m judged g).1 } (breed settings m judged g).2 := by
  unfold courseFrom
  rw [generationsFrom, hbefore, hjudged]
  dsimp only [Bool.false_eq_true, if_false]
  rw [hverdict]
  rfl

end

/-- The judge of a run for a program whose tree is given. -/
def judge (G : Type) [RandomSource G] (e : Evolution) (t : Tree) : Judge := .ofReference G e.settings.fitness t

/-- The mutator of a run. -/
def mutator (e : Evolution) : Mutator := .ofSettings e.settings.mutation

/-- The first program with its score. -/
def judgedSeed (G : Type) [RandomSource G] (e : Evolution) (around : Surroundings) (t : Tree) : Variant :=
  e.seed.judged ((e.judge G t).score around.atSeed e.seed)

/-- The outcome of a run that nobody observes, for a program whose tree is given. -/
def outcome (G : Type) [RandomSource G] (e : Evolution) (around : Surroundings) (t : Tree) : Outcome :=
  (e.outcomeWith G (fun _ _ => ()) () around t).2

theorem run_eq {e : Evolution} {around : Surroundings} {t : Tree} (ht : e.seed.tree? = .ok t) :
    e.run G around = .ok (e.outcome G around t, { e with phase := .terminated }) := by
  rw [run, runWith, ht]
  rfl

/-- What a run comes to that is not cancelled before its first generation, and why it ends. -/
def finish (G : Type) [RandomSource G] (e : Evolution) (around : Surroundings) (t : Tree) : Progress × Termination :=
  (evolveFrom (fun _ _ => ()) () e.settings (e.judge G t) around (e.judgedSeed G around t)
    (RandomSource.ofSeed e.settings.seed : G)).1.2

theorem outcome_eq {e : Evolution} {around : Surroundings} {t : Tree} (h : around.cancelled .seedJudged = false) :
    e.outcome G around t =
      { best := (e.finish G around t).1.best
        seedScore := (e.judge G t).score around.atSeed e.seed
        population := bestFirst (e.finish G around t).1.judged
        generations := (e.finish G around t).1.generation
        stats := (e.finish G around t).1.stats
        termination := (e.finish G around t).2 } := by
  rw [outcome, outcomeWith, h]
  rfl

/-- The generations of a run that are judged completely, for a program whose tree is given. -/
def history (G : Type) [RandomSource G] (e : Evolution) (around : Surroundings) (t : Tree) : List (List Variant) :=
  let act : Draw G (List (List Variant)) := do
    let others ← mutants e.mutator (e.judgedSeed G around t) (e.settings.populationSize - 1)
    judgedFrom e.settings (e.judge G t) e.mutator around e.settings.generations
      (.start (e.judgedSeed G around t) others)
  if around.cancelled .seedJudged then [] else (act (RandomSource.ofSeed e.settings.seed)).1

/-- What is kept when a generation is judged and when the next one is bred is kept by a run.  By induction on
the generations that may still be judged. -/
theorem courseFrom_invariant {settings : EvolutionSettings} {judge : Judge} {m : Mutator}
    {around : Surroundings} {I : List (List Variant) → Progress → Prop}
    (hjudged : ∀ gens p, I gens p → I (gens ++ [judge.judgeAll p.memo around p.generation p.population])
      (p.record (judge.judgeAll p.memo around p.generation p.population)))
    (hbred : ∀ gens p (g : G), I gens p → I gens { p with population := (breed settings m p.population g).1 })
    (remaining : Nat) : ∀ (gens : List (List Variant)) (p : Progress) (g : G), I gens p →
      I (gens ++ (judgedFrom settings judge m around remaining p g).1)
        (courseFrom settings judge m around remaining p g).1.1 := by
  induction remaining with
  | zero =>
    intro gens p g h
    rw [show (judgedFrom settings judge m around 0 p g).1 = [] from rfl, List.append_nil]
    exact h
  | succ remaining ih =>
    intro gens p g h
    have hnone : I (gens ++ []) p := by rwa [List.append_nil]
    have hstep := hjudged gens p h
    unfold judgedFrom
    -- Cancelled before or while the generation is judged, the run ends as it is.
    cases hbefore : around.cancelled (.before p.generation) with
    | true =>
      rw [courseFrom_cancelled (.inl hbefore)]
      exact hnone
    | false =>
      cases hduring : around.cancelled (.judged p.generation) with
      | true =>
        rw [courseFrom_cancelled (.inr hduring)]
        exact hnone
      | false =>
        dsimp only [Bool.false_eq_true, if_false]
        cases hverdict : (p.record (judge.judgeAll p.memo around p.generation p.population)).verdict? settings with
        | some termination =>
          rw [courseFrom_settled hbefore hduring hverdict]
          exact hstep
        | none =>
          rw [courseFrom_next hbefore hduring hverdict]
          have hrest := ih _ _ (breed settings m (judge.judgeAll p.memo around p.generation p.population) g).2
            (hbred _ _ g hstep)
          rw [List.append_assoc] at hrest
          exact hrest

/-- What holds at the start of a run that is not cancelled before, and is kept by every generation, holds of what
the run comes to. -/
theorem finish_invariant {e : Evolution} {around : Surroundings} {t : Tree}
    (hseed : around.cancelled .seedJudged = false) {I : List (List Variant) → Progress → Prop}
    (hstart : Always G (mutants e.mutator (e.judgedSeed G around t) (e.settings.populationSize - 1)) fun others =>
      I [] (.start (e.judgedSeed G around t) others))
    (hjudged : ∀ gens p, I gens p → I (gens ++ [(e.judge G t).judgeAll p.memo around p.generation p.population])
      (p.record ((e.judge G t).judgeAll p.memo around p.generation p.population)))
    (hbred : ∀ gens p (g : G), I gens p →
      I gens { p with population := (breed e.settings e.mutator p.population g).1 }) :
    I (e.history G around t) (e.finish G around t).1 := by
  have hrun := courseFrom_invariant hjudged hbred e.settings.generations [] _
    (mutants e.mutator (e.judgedSeed G around t) (e.settings.populationSize - 1)
      (RandomSource.ofSeed e.settings.seed)).2
    (hstart (RandomSource.ofSeed e.settings.seed))
  rw [history, hseed]
  exact hrun

end Evolution

/-! ### Scores that are as they should be -/

variable {P : String → Score → Prop}

/-- The score of a candidate, if it has one, is as it should be for its text. -/
def Variant.Carries (P : String → Score → Prop) (v : Variant) : Prop := ∀ score ∈ v.score, P v.source score

/-- So are all scores that are looked up. -/
def Memo.Carries (P : String → Score → Prop) (memo : Memo) : Prop := ∀ entry ∈ memo, P entry.1 entry.2

theorem Variant.carries_of_none {v : Variant} (h : v.score = none) : v.Carries P := by
  intro score hscore
  rw [h] at hscore
  cases hscore

theorem Variant.carries_judged {v : Variant} {score : Score} (h : P v.source score) : (v.judged score).Carries P := by
  intro _ hscore
  cases hscore
  exact h

theorem Memo.Carries.insert {memo : Memo} {v : Variant} (h : memo.Carries P) (hv : v.Carries P) :
    (memo.insert v).Carries P := by
  unfold Memo.insert
  split
  · rename_i score hscore _
    intro entry hentry
    rcases List.mem_cons.mp hentry with rfl | hentry
    · exact hv score hscore
    · exact h entry hentry
  · exact h

/-- By induction on the candidates. -/
theorem Memo.Carries.learn (population : List Variant) : ∀ {memo : Memo}, memo.Carries P →
    (∀ v ∈ population, v.Carries P) → (memo.learn population).Carries P := by
  induction population with
  | nil => exact fun h _ => h
  | cons v rest ih =>
    intro memo h hpopulation
    exact ih (h.insert (hpopulation v (List.mem_cons_self ..))) fun w hw => hpopulation w (List.mem_cons_of_mem _ hw)

theorem Memo.Carries.score? {memo : Memo} (h : memo.Carries P) {source : String} {score : Score}
    (hscore : memo.score? source = some score) : P source score := by
  obtain ⟨before, after, rfl, -⟩ := List.lookup_eq_some_iff.mp hscore
  exact h (source, score) (by simp)

/-- A candidate is judged as it should be if the judge judges its text so. -/
theorem Judge.judge_carries {judge : Judge} {memo : Memo} {watch : Watch} {v : Variant} (hmemo : memo.Carries P)
    (hv : v.Carries P) (hjudge : P v.source (judge.score watch v)) : (judge.judge memo watch v).Carries P := by
  unfold Judge.judge
  split
  · exact hv
  · split
    · rename_i score hscore
      exact Variant.carries_judged (hmemo.score? hscore)
    · exact Variant.carries_judged hjudge

theorem Judge.judgeAll_carries {judge : Judge} {memo : Memo} {around : Surroundings} {generation : Nat}
    {population : List Variant} (hmemo : memo.Carries P) (h : ∀ v ∈ population, v.Carries P)
    (hjudge : ∀ i v, P v.source (judge.score (around.atCandidate generation i) v)) :
    ∀ v ∈ judge.judgeAll memo around generation population, v.Carries P := by
  intro v hv
  obtain ⟨⟨w, i⟩, hw, rfl⟩ := List.mem_map.mp hv
  exact Judge.judge_carries hmemo (h w (List.fst_mem_of_mem_zipIdx hw)) (hjudge i w)

/-! ### Breeding -/

theorem Mutator.mutate_carries (m : Mutator) {v : Variant} (h : v.Carries P) :
    Always G (m.mutate v) fun v' => v'.Carries P := by
  unfold Mutator.mutate
  split
  · exact .pure h
  · refine (Always.trivial _).bind fun result _ => .pure ?_
    cases result with
    | none => exact h
    | some t => exact Variant.carries_of_none rfl

/-- A child of two candidates has not been judged. -/
theorem crossover_unjudged (settings : CrossoverSettings) (parent other : Variant) :
    Always G (crossover settings parent other) fun child => child.score = none := by
  unfold crossover
  split
  · refine (Always.trivial _).bind fun result _ => .pure ?_
    cases result <;> rfl
  · exact .pure rfl

namespace Evolution

theorem child?_unjudged (settings : EvolutionSettings) (parents : List Variant) :
    Always G (child? settings parents) fun child => ∀ v ∈ child, v.score = none := by
  refine (Always.trivial _).bind fun pair _ => ?_
  cases pair with
  | none => exact .pure nofun
  | some pair =>
    refine (Always.trivial _).bind fun both _ => ?_
    cases both with
    | true =>
      refine (crossover_unjudged settings.crossover pair.1 pair.2).bind fun child hchild => .pure ?_
      rintro _ ⟨⟩
      exact hchild
    | false =>
      refine .pure ?_
      rintro _ ⟨⟩
      rfl

theorem children_unjudged (settings : EvolutionSettings) (parents : List Variant) : ∀ count : Nat,
    Always G (children settings parents count) fun unborn => ∀ v ∈ unborn, v.score = none
  | 0 => .pure nofun
  | count + 1 => by
    refine (child?_unjudged settings parents).bind fun child hchild => ?_
    cases child with
    | none => exact .pure nofun
    | some child =>
      refine (children_unjudged settings parents count).bind fun others hothers => .pure ?_
      exact List.forall_mem_cons.mpr ⟨hchild child rfl, hothers⟩

theorem mutateAll_carries (m : Mutator) : ∀ {population : List Variant}, (∀ v ∈ population, v.Carries P) →
    Always G (mutateAll m population) fun mutated => ∀ v ∈ mutated, v.Carries P
  | [], _ => .pure nofun
  | v :: rest, h => by
    obtain ⟨hv, hrest⟩ := List.forall_mem_cons.mp h
    refine (m.mutate_carries hv).bind fun v' hv' => ?_
    refine (mutateAll_carries m hrest).bind fun others hothers => .pure ?_
    exact List.forall_mem_cons.mpr ⟨hv', hothers⟩

theorem mutants_carries (m : Mutator) {v : Variant} (h : v.Carries P) : ∀ count : Nat,
    Always G (mutants m v count) fun mutated => ∀ w ∈ mutated, w.Carries P
  | 0 => .pure nofun
  | count + 1 => by
    refine (m.mutate_carries h).bind fun v' hv' => ?_
    refine (mutants_carries m h count).bind fun others hothers => .pure ?_
    exact List.forall_mem_cons.mpr ⟨hv', hothers⟩

/-- Breeding brings in no scores but those of candidates that are taken over as they are. -/
theorem breed_carries (settings : EvolutionSettings) (m : Mutator) {population : List Variant}
    (h : ∀ v ∈ population, v.Carries P) :
    Always G (breed settings m population) fun next => ∀ v ∈ next, v.Carries P := by
  refine (Always.trivial _).bind fun parents _ => ?_
  refine (children_unjudged settings parents _).bind fun unborn hunborn => ?_
  have hunborn : ∀ v ∈ unborn, v.Carries P := fun v hv => Variant.carries_of_none (hunborn v hv)
  refine (mutateAll_carries m hunborn).bind fun mutated hmutated => .pure fun v hv => ?_
  rcases List.mem_append.mp hv with hv | hv
  · exact hmutated v hv
  · exact h v (elite_subset population _ hv)

end Evolution

/-! ### All that a run has come to -/

/-- All scores that a run has come to are as they should be. -/
structure Progress.Carries (P : String → Score → Prop) (p : Progress) : Prop where
  population : ∀ v ∈ p.population, v.Carries P
  judged : ∀ v ∈ p.judged, v.Carries P
  best : p.best.Carries P
  memo : p.memo.Carries P

namespace Progress

/-- The best candidate so far is the best one before, or one of the generation just judged. -/
theorem record_best (p : Progress) (judged : List Variant) :
    (p.record judged).best = p.best ∨ (p.record judged).best ∈ judged := by
  unfold record
  cases hleader : leader? judged with
  | none => exact .inl rfl
  | some leader =>
    dsimp only
    split
    · exact .inr (leader?_isLeader hleader).mem
    · exact .inl rfl

theorem Carries.start {seed : Variant} {others : List Variant} (hseed : seed.Carries P)
    (hothers : ∀ v ∈ others, v.Carries P) : (start seed others).Carries P where
  population := List.forall_mem_cons.mpr ⟨hseed, hothers⟩
  judged := List.forall_mem_singleton.mpr hseed
  best := hseed
  memo := Memo.Carries.learn [seed] nofun (List.forall_mem_singleton.mpr hseed)

theorem Carries.record {p : Progress} {judged : List Variant} (h : p.Carries P)
    (hjudged : ∀ v ∈ judged, v.Carries P) : (p.record judged).Carries P where
  population := hjudged
  judged := hjudged
  best := by
    rcases p.record_best judged with hbest | hbest
    · rw [hbest]
      exact h.best
    · exact hjudged _ hbest
  memo := h.memo.learn judged hjudged

/-- A bred generation takes the place of the one it was bred from. -/
theorem Carries.breed {p : Progress} (h : p.Carries P) (settings : EvolutionSettings) (m : Mutator) (g : G) :
    Carries P { p with population := (Evolution.breed settings m p.population g).1 } :=
  { h with population := Evolution.breed_carries settings m h.population g }

end Progress

end ProgramBreeding

import Mathlib.Data.List.GetD
import ProgramBreeding.Proofs.Breeding.Brood

/-!
# Why a run stops

A run looks for three reasons to stop whenever a generation has been judged: the best total may be perfect, it
may not have risen for as many generations as the settings have patience, and there may be no generation left.
Each of these can be told from the best totals by each generation, which the statistics list.  A run that nobody
cancels stops for the first of them and not before it has one.

## Main definitions

* `lastRise` — the last generation in which the best total rose.
* `IsPerfect`, `IsStagnant` — reasons to stop, in terms of the best totals.
* `Progress.Counts` — what a run counts, in the same terms; kept by `Progress.Counts.record`.
* `Progress.Ongoing` — a run that has had no reason to stop.
* `Evolution.runWith_eq` — what an observer of a run sees.
* `Evolution.run_stops` — why and when a run stops.

## Design notes

The counter of a run is zero both in the first generation and after progress.  So a run without any progress
stops as if there had been some in its first generation, and `lastRise` is zero for it.
-/

namespace ProgramBreeding

open Chance

variable {G : Type} [RandomSource G]

protected theorem Double.lt_irrefl (x : Double) : ¬ x < x := by
  intro h
  exact Nat.lt_irrefl _ (Double.lt_iff.mp h).2.2

/-! ### Best totals, generation by generation -/

/-- The best total rose in a generation: before the first one, it was that of the first program. -/
def risesIn (first : Double) (bests : List Double) (i : Nat) : Bool := (first :: bests).getD i 0.0 < bests.getD i 0.0

/-- The last generation in which the best total rose; zero if it never did. -/
def lastRise (first : Double) (bests : List Double) : Nat :=
  ((List.range bests.length).filter (risesIn first bests)).getLastD 0

/-- The best total was perfect in some generation. -/
def IsPerfect (bests : List Double) : Prop := ∃ x ∈ bests, 1.0 ≤ x

/-- The best total has not risen for as many generations as there is patience. -/
def IsStagnant (patience : Nat) (first : Double) (bests : List Double) : Prop :=
  0 < patience ∧ bests.length = lastRise first bests + patience + 1

variable {first b : Double} {totals : List Double}

/-- By induction on the totals. -/
theorem getD_length_eq_getLastD : ∀ (first : Double) (totals : List Double),
    (first :: totals).getD totals.length 0.0 = totals.getLastD first
  | _, [] => rfl
  | _, b :: totals => by
    rw [List.getLastD_cons]
    exact getD_length_eq_getLastD b totals

theorem risesIn_concat_of_lt {i : Nat} (h : i < totals.length) :
    risesIn first (totals ++ [b]) i = risesIn first totals i := by
  have hbefore : (first :: (totals ++ [b])).getD i 0.0 = (first :: totals).getD i 0.0 :=
    List.getD_append (first :: totals) [b] 0.0 i (Nat.lt_succ_of_lt h)
  unfold risesIn
  rw [hbefore, List.getD_append _ _ _ _ h]

theorem risesIn_concat_length : risesIn first (totals ++ [b]) totals.length = decide (totals.getLastD first < b) := by
  have hbefore : (first :: (totals ++ [b])).getD totals.length 0.0 = (first :: totals).getD totals.length 0.0 :=
    List.getD_append (first :: totals) [b] 0.0 totals.length (Nat.lt_succ_self _)
  have hnow : (totals ++ [b]).getD totals.length 0.0 = b := by
    rw [List.getD_append_right _ _ _ _ (Nat.le_refl _), Nat.sub_self]
    rfl
  unfold risesIn
  rw [hbefore, hnow, getD_length_eq_getLastD]

/-- One more generation is the last in which the best total rose, if it did. -/
theorem lastRise_concat (first b : Double) (totals : List Double) :
    lastRise first (totals ++ [b]) = if totals.getLastD first < b then totals.length else lastRise first totals := by
  have hearlier : (List.range totals.length).filter (risesIn first (totals ++ [b])) =
      (List.range totals.length).filter (risesIn first totals) :=
    List.filter_congr fun i hi => risesIn_concat_of_lt (List.mem_range.mp hi)
  unfold lastRise
  rw [List.length_append, List.length_singleton, List.range_succ, List.filter_append, hearlier]
  split
  · rename_i hrise
    have hlast : [totals.length].filter (risesIn first (totals ++ [b])) = [totals.length] :=
      List.filter_cons_of_pos (risesIn_concat_length.trans (decide_eq_true hrise))
    rw [hlast, List.getLastD_concat]
  · rename_i hrise
    have hlast : [totals.length].filter (risesIn first (totals ++ [b])) = [] :=
      List.filter_cons_of_neg (Bool.not_eq_true _ ▸ risesIn_concat_length.trans (decide_eq_false hrise))
    rw [hlast, List.append_nil]

theorem lastRise_lt (first : Double) (h : totals ≠ []) : lastRise first totals < totals.length := by
  unfold lastRise
  rw [List.getLastD_eq_getLast?]
  cases hlast : ((List.range totals.length).filter (risesIn first totals)).getLast? with
  | none => exact List.length_pos_iff.mpr h
  | some i => exact List.mem_range.mp (List.mem_filter.mp (List.mem_of_getLast? hlast)).1

theorem isPerfect_concat : IsPerfect (totals ++ [b]) ↔ IsPerfect totals ∨ 1.0 ≤ b := by
  unfold IsPerfect
  simp [or_and_right, exists_or]

/-! ### What a run counts -/

/-- The best totals by each generation. -/
def Progress.bests (p : Progress) : List Double := p.stats.map GenerationStats.bestEver

/-- The same, for a run that is over. -/
def Outcome.bests (outcome : Outcome) : List Double := outcome.stats.map GenerationStats.bestEver

namespace Progress

variable {p : Progress} {judged : List Variant} {settings : EvolutionSettings}

theorem record_bests (p : Progress) (judged : List Variant) :
    (p.record judged).bests = p.bests ++ [(p.record judged).best.total] := by
  unfold bests
  rw [record_stats, List.map_append]
  rfl

/-- Either the best total rises and the counter starts anew, or both are as before but for one more generation;
the first generation is not counted. -/
theorem record_cases (p : Progress) (hne : judged ≠ []) :
    (p.best.total < (p.record judged).best.total ∧ (p.record judged).stagnant = 0) ∨
      ((p.record judged).best = p.best ∧
        (p.record judged).stagnant = if p.generation = 0 then p.stagnant else p.stagnant + 1) := by
  unfold record
  cases hleader : leader? judged with
  | none => exact absurd (leader?_eq_none hleader) hne
  | some leader =>
    dsimp only
    split
    · rename_i hrise
      exact .inl ⟨hrise, rfl⟩
    · exact .inr ⟨rfl, rfl⟩

/-- What a run counts can be told from the best totals. -/
structure Counts (first : Double) (p : Progress) : Prop where
  numbers : p.stats.map GenerationStats.generation = List.range p.generation
  best : p.bests.getLastD first = p.best.total
  stagnant : p.stagnant = p.generation - 1 - lastRise first p.bests

namespace Counts

theorem length_bests (h : p.Counts first) : p.bests.length = p.generation := by
  rw [bests, List.length_map, ← List.length_map GenerationStats.generation, h.numbers, List.length_range]

theorem lastRise_lt (h : p.Counts first) (hpos : 0 < p.generation) : lastRise first p.bests < p.generation := by
  rw [← h.length_bests] at hpos ⊢
  exact ProgramBreeding.lastRise_lt first (List.length_pos_iff.mp hpos)

theorem start (seed : Variant) (others : List Variant) : (start seed others).Counts seed.total where
  numbers := rfl
  best := rfl
  stagnant := rfl

theorem record (h : p.Counts first) (hne : judged ≠ []) : (p.record judged).Counts first where
  numbers := by
    rw [record_stats, List.map_append, h.numbers]
    exact List.range_succ.symm
  best := by rw [record_bests, List.getLastD_concat]
  stagnant := by
    have hgeneration : (p.record judged).generation = p.generation + 1 := rfl
    rw [record_bests, lastRise_concat, h.best, h.length_bests, hgeneration, Nat.add_sub_cancel]
    -- The counter is that of the generations after the last rise, in the first generation as in any other.
    rcases p.record_cases hne with ⟨hrise, hstagnant⟩ | ⟨hbest, hstagnant⟩
    · rw [if_pos hrise, hstagnant, Nat.sub_self]
    · rw [hbest, if_neg (Double.lt_irrefl _), hstagnant, h.stagnant]
      split
      · omega
      · rename_i hlater
        have hlast := h.lastRise_lt (Nat.pos_of_ne_zero hlater)
        omega

/-- A counter that has not passed the patience has reached it just when the run is stagnant. -/
theorem isStagnant_iff (h : p.Counts first) (hpos : 0 < p.generation)
    (hle : 0 < settings.patience → p.stagnant ≤ settings.patience) :
    IsStagnant settings.patience first p.bests ↔ 0 < settings.patience ∧ settings.patience ≤ p.stagnant := by
  have hlast := h.lastRise_lt hpos
  have hstagnant := h.stagnant
  unfold IsStagnant
  rw [h.length_bests]
  refine and_congr_right fun hpatience => ?_
  have := hle hpatience
  omega

end Counts

/-! ### Reasons to stop -/

/-- A run goes on if it has no reason to stop. -/
theorem verdict?_eq_none (h : p.verdict? settings = none) :
    ¬ 1.0 ≤ p.best.total ∧ ¬ (0 < settings.patience ∧ settings.patience ≤ p.stagnant) ∧
      p.generation < settings.generations := by
  unfold verdict? at h
  split at h
  · cases h
  · rename_i hperfect
    split at h
    · cases h
    · rename_i hstagnant
      split at h
      · cases h
      · rename_i hlimit
        rw [Bool.and_eq_true, decide_eq_true_iff, decide_eq_true_iff] at hstagnant
        exact ⟨hperfect, hstagnant, Nat.lt_of_not_le hlimit⟩

/-- A run looks for the reasons to stop in this order. -/
theorem verdict?_eq_some {termination : Termination} (h : p.verdict? settings = some termination) :
    (termination = .perfectScore ∧ 1.0 ≤ p.best.total) ∨
      (termination = .stagnation ∧ ¬ 1.0 ≤ p.best.total ∧
        0 < settings.patience ∧ settings.patience ≤ p.stagnant) ∨
      (termination = .generationLimit ∧ ¬ 1.0 ≤ p.best.total ∧
        ¬ (0 < settings.patience ∧ settings.patience ≤ p.stagnant) ∧ settings.generations ≤ p.generation) := by
  unfold verdict? at h
  split at h
  · rename_i hperfect
    cases h
    exact .inl ⟨rfl, hperfect⟩
  · rename_i hperfect
    split at h
    · rename_i hstagnant
      rw [Bool.and_eq_true, decide_eq_true_iff, decide_eq_true_iff] at hstagnant
      cases h
      exact .inr (.inl ⟨rfl, hperfect, hstagnant⟩)
    · rename_i hstagnant
      rw [Bool.and_eq_true, decide_eq_true_iff, decide_eq_true_iff] at hstagnant
      split at h
      · rename_i hlimit
        cases h
        exact .inr (.inr ⟨rfl, hperfect, hstagnant, hlimit⟩)
      · cases h

/-- A run that has had no reason to stop. -/
structure Ongoing (settings : EvolutionSettings) (first : Double) (p : Progress) : Prop extends p.Counts first where
  imperfect : ¬ IsPerfect p.bests
  patient : 0 < settings.patience → p.stagnant < settings.patience
  lively : ∀ count ≤ p.generation, 0 < count → ¬ IsStagnant settings.patience first (p.bests.take count)

namespace Ongoing

theorem start (settings : EvolutionSettings) (seed : Variant) (others : List Variant) :
    (start seed others).Ongoing settings seed.total where
  toCounts := .start seed others
  imperfect := nofun
  patient := id
  lively _ hle hpos := absurd hpos (Nat.not_lt.mpr hle)

/-- The generation to be judged next is of no account. -/
theorem withPopulation (h : p.Ongoing settings first) (next : List Variant) :
    Ongoing settings first { p with population := next } :=
  ⟨⟨h.numbers, h.best, h.stagnant⟩, h.imperfect, h.patient, h.lively⟩

/-- The first perfect total is that of the generation just judged. -/
theorem isPerfect_record (h : p.Ongoing settings first) :
    IsPerfect (p.record judged).bests ↔ 1.0 ≤ (p.record judged).best.total := by
  rw [record_bests, isPerfect_concat]
  exact or_iff_right h.imperfect

/-- The counter does not pass the patience. -/
theorem isStagnant_record (h : p.Ongoing settings first) (hne : judged ≠ []) :
    IsStagnant settings.patience first (p.record judged).bests ↔
      0 < settings.patience ∧ settings.patience ≤ (p.record judged).stagnant := by
  refine (h.record hne).isStagnant_iff (Nat.succ_pos _) fun hpatience => ?_
  have hbefore := h.patient hpatience
  rcases p.record_cases hne with ⟨-, hstagnant⟩ | ⟨-, hstagnant⟩
  · rw [hstagnant]
    exact Nat.zero_le _
  · rw [hstagnant]
    split <;> omega

/-- No earlier generation gave a reason to stop. -/
theorem earlier (h : p.Ongoing settings first) (judged : List Variant) {count : Nat} (hpos : 0 < count)
    (hle : count ≤ p.generation) :
    ¬ IsPerfect ((p.record judged).bests.take count) ∧
      ¬ IsStagnant settings.patience first ((p.record judged).bests.take count) := by
  rw [record_bests, List.take_append_of_le_length (h.length_bests ▸ hle)]
  refine ⟨?_, h.lively count hle hpos⟩
  rintro ⟨x, hx, hperfect⟩
  exact h.imperfect ⟨x, List.mem_of_mem_take hx, hperfect⟩

/-- A run that goes on has still had no reason to stop. -/
theorem record (h : p.Ongoing settings first) (hne : judged ≠ [])
    (hverdict : (p.record judged).verdict? settings = none) : (p.record judged).Ongoing settings first := by
  obtain ⟨hperfect, hstagnant, -⟩ := verdict?_eq_none hverdict
  refine ⟨h.toCounts.record hne, mt h.isPerfect_record.mp hperfect, fun hpatience => ?_, fun count hle hpos => ?_⟩
  · exact Nat.lt_of_not_le fun hge => hstagnant ⟨hpatience, hge⟩
  -- The generations before this one gave no reason by assumption, and this one by the verdict.
  · rcases Nat.lt_or_eq_of_le hle with hlt | rfl
    · exact (h.earlier judged hpos (Nat.le_of_lt_succ hlt)).2
    · rw [← (h.toCounts.record hne).length_bests, List.take_length, h.isStagnant_record hne]
      exact hstagnant

end Ongoing

/-- A run stops for the first reason that it has. -/
structure Stops (settings : EvolutionSettings) (first : Double) (p : Progress) (termination : Termination) : Prop
    extends p.Counts first where
  pos : 0 < p.generation
  perfect : termination = .perfectScore ↔ IsPerfect p.bests
  stagnation : termination = .stagnation ↔ ¬ IsPerfect p.bests ∧ IsStagnant settings.patience first p.bests
  otherwise : termination ≠ .perfectScore → termination ≠ .stagnation →
    termination = .generationLimit ∧ settings.generations ≤ p.generation
  earlier : ∀ count < p.generation, 0 < count →
    ¬ IsPerfect (p.bests.take count) ∧ ¬ IsStagnant settings.patience first (p.bests.take count)

theorem Ongoing.stops (h : p.Ongoing settings first) (hne : judged ≠ []) {termination : Termination}
    (hverdict : (p.record judged).verdict? settings = some termination) :
    (p.record judged).Stops settings first termination where
  toCounts := h.toCounts.record hne
  pos := Nat.succ_pos _
  earlier count hlt hpos := h.earlier judged hpos (Nat.le_of_lt_succ hlt)
  perfect := by
    rw [h.isPerfect_record]
    rcases verdict?_eq_some hverdict with ⟨rfl, hp⟩ | ⟨rfl, hp, -⟩ | ⟨rfl, hp, -⟩ <;> simp [hp]
  stagnation := by
    rw [h.isPerfect_record, h.isStagnant_record hne]
    rcases verdict?_eq_some hverdict with ⟨rfl, hp⟩ | ⟨rfl, hp, hreached⟩ | ⟨rfl, -, hmissed, -⟩
    · simp [hp]
    · simp [hp, hreached]
    · simp [hmissed]
  otherwise hperfect hstagnation := by
    rcases verdict?_eq_some hverdict with ⟨hreason, -⟩ | ⟨hreason, -⟩ | ⟨hreason, -, -, hlimit⟩
    · exact absurd hreason hperfect
    · exact absurd hreason hstagnation
    · exact ⟨hreason, hlimit⟩

end Progress

namespace Evolution

variable {e : Evolution} {around : Surroundings} {t : Tree} {remaining : Nat} {p : Progress} {g : G}

/-! ### Whole runs -/

/-- A run that has come to one of its states can judge one more generation. -/
theorem Reaches.remaining_pos (h : e.Reaches around t remaining p g) (hcheck : e.settings.check = .ok ()) :
    0 < remaining := by
  cases h with
  | start => exact (EvolutionSettings.pos_of_check hcheck).2
  | next h _ _ hverdict =>
    have hsum := h.generation_add
    have hless : _ + 1 < e.settings.generations := (Progress.verdict?_eq_none hverdict).2.2
    omega

theorem Reaches.judgedIn_ne_nil (h : e.Reaches around t remaining p g) (hcheck : e.settings.check = .ok ()) :
    e.judgedIn G around t p ≠ [] := by
  rw [← List.length_pos_iff, judgedIn_length, h.length_population hcheck]
  exact (EvolutionSettings.pos_of_check hcheck).1

theorem Reaches.ongoing (h : e.Reaches around t remaining p g) (hcheck : e.settings.check = .ok ()) :
    p.Ongoing e.settings (e.judgedSeed G around t).total := by
  induction h with
  | start => exact .start e.settings (e.judgedSeed G around t) _
  | next h _ _ hverdict ih => exact (ih.record (h.judgedIn_ne_nil hcheck) hverdict).withPopulation _

theorem Ends.stops {r : Progress × Termination} (h : e.Ends G around t r) (hcheck : e.settings.check = .ok ())
    (huncancelled : ∀ moment, around.cancelled moment = false) :
    r.1.Stops e.settings (e.judgedSeed G around t).total r.2 ∧ r.1.generation ≤ e.settings.generations := by
  cases h with
  | exhausted h => exact absurd (h.remaining_pos hcheck) (Nat.lt_irrefl 0)
  | cancelled h hseen =>
    rw [huncancelled, huncancelled] at hseen
    exact absurd hseen (by decide)
  | settled h _ _ hverdict =>
    refine ⟨(h.ongoing hcheck).stops (h.judgedIn_ne_nil hcheck) hverdict, ?_⟩
    rw [← h.generation_add]
    exact Nat.add_le_add_left (Nat.le_add_left ..) _

/-! ### An observer -/

/-- An observer sees what is listed in the end, and a run takes no notice of it.  By induction on the generations
that may still be judged. -/
theorem generationsFrom_observed {σ : Type} (observer : σ → GenerationStats → σ) (settings : EvolutionSettings)
    (judge : Judge) (m : Mutator) (around : Surroundings) (s : σ) : ∀ (remaining : Nat) (p : Progress) (g : G),
      (generationsFrom observer settings judge m around remaining (p.stats.foldl observer s) p g).1 =
        ((courseFrom settings judge m around remaining p g).1.1.stats.foldl observer s,
          (courseFrom settings judge m around remaining p g).1)
  | 0, p, g => rfl
  | remaining + 1, p, g => by
    rw [generationsFrom]
    cases hbefore : around.cancelled (.before p.generation) with
    | true =>
      rw [courseFrom_cancelled (.inl hbefore)]
      rfl
    | false =>
      cases hjudged : around.cancelled (.judged p.generation) with
      | true =>
        rw [courseFrom_cancelled (.inr hjudged)]
        rfl
      | false =>
        have hseen (judged : List Variant) :
            observer (p.stats.foldl observer s) (p.news judged) = (p.record judged).stats.foldl observer s := by
          rw [Progress.record_stats, List.foldl_append]
          rfl
        dsimp only [Bool.false_eq_true, if_false]
        rw [hseen]
        cases hverdict : (p.record (judge.judgeAll p.memo around p.generation p.population)).verdict? settings with
        | some termination =>
          rw [courseFrom_settled hbefore hjudged hverdict]
          rfl
        | none =>
          rw [courseFrom_next hbefore hjudged hverdict]
          generalize judge.judgeAll p.memo around p.generation p.population = judged
          exact generationsFrom_observed observer settings judge m around s remaining
            { p.record judged with population := (breed settings m judged g).1 } (breed settings m judged g).2

theorem outcomeWith_eq {σ : Type} (G : Type) [RandomSource G] (e : Evolution) (observer : σ → GenerationStats → σ)
    (s : σ) (around : Surroundings) (t : Tree) :
    e.outcomeWith G observer s around t = ((e.outcome G around t).stats.foldl observer s, e.outcome G around t) := by
  unfold outcomeWith
  cases hseed : around.cancelled .seedJudged with
  | true =>
    rw [outcome_eq_abandoned hseed]
    rfl
  | false =>
    have hcourse := generationsFrom_observed observer e.settings (e.judge G t) e.mutator around s
      e.settings.generations (.start (e.judgedSeed G around t) (e.firstMutants G around t).1)
      (e.firstMutants G around t).2
    rw [outcome_eq_finish hseed]
    exact congrArg (fun r => (r.1, r.2.1.outcome ((e.judge G t).score around.atSeed e.seed) r.2.2)) hcourse

theorem runWith_eq {σ : Type} (ht : e.seed.tree? = .ok t) (observer : σ → GenerationStats → σ) (s : σ) :
    e.runWith G observer s around =
      ((e.outcome G around t).stats.foldl observer s, .ok (e.outcome G around t, { e with phase := .terminated })) := by
  rw [runWith, ht]
  dsimp only
  rw [outcomeWith_eq]

/-- A run that nobody cancels judges at least one generation, and no more than it may.  An observer is shown each
of them once, in order.  With the best totals by each generation, the run stops for a perfect total, or else when
the best total has not risen for as many generations as there is patience, or else at the limit; and there was
none of these reasons after an earlier generation. -/
theorem run_stops (hcheck : e.settings.check = .ok ()) (ht : e.seed.tree? = .ok t)
    (huncancelled : ∀ moment, around.cancelled moment = false) :
    ∃ outcome, e.run G around = .ok (outcome, { e with phase := .terminated }) ∧
      1 ≤ outcome.generations ∧ outcome.generations ≤ e.settings.generations ∧
      outcome.stats.map GenerationStats.generation = List.range outcome.generations ∧
      (∀ (σ : Type) (observer : σ → GenerationStats → σ) (s : σ),
        e.runWith G observer s around =
          (outcome.stats.foldl observer s, .ok (outcome, { e with phase := .terminated }))) ∧
      outcome.bests.getLastD outcome.seedScore.total = outcome.best.total ∧
      (outcome.termination = .perfectScore ↔ IsPerfect outcome.bests) ∧
      (outcome.termination = .stagnation ↔ ¬ IsPerfect outcome.bests ∧ 0 < e.settings.patience ∧
        outcome.generations = lastRise outcome.seedScore.total outcome.bests + e.settings.patience + 1) ∧
      (outcome.termination ≠ .perfectScore → outcome.termination ≠ .stagnation →
        outcome.termination = .generationLimit ∧ outcome.generations = e.settings.generations) ∧
      ∀ count, 0 < count → count < outcome.generations →
        ¬ IsPerfect (outcome.bests.take count) ∧
        ¬ IsStagnant e.settings.patience outcome.seedScore.total (outcome.bests.take count) ∧
        count < e.settings.generations := by
  obtain ⟨hstops, hle⟩ := (finish_ends G e around t).stops hcheck huncancelled
  have houtcome := outcome_eq_finish (G := G) (e := e) (t := t) (huncancelled .seedJudged)
  refine ⟨e.outcome G around t, run_eq ht, ?_⟩
  have hobserved : ∀ (σ : Type) (observer : σ → GenerationStats → σ) (s : σ),
      e.runWith G observer s around =
        ((e.outcome G around t).stats.foldl observer s, .ok (e.outcome G around t, { e with phase := .terminated })) :=
    fun σ observer s => runWith_eq ht observer s
  rw [houtcome] at hobserved ⊢
  refine ⟨hstops.pos, hle, hstops.numbers, hobserved, hstops.best, hstops.perfect, ?_, ?_, ?_⟩
  · have hstagnation := hstops.stagnation
    unfold IsStagnant at hstagnation
    rw [hstops.length_bests] at hstagnation
    exact hstagnation
  · intro hperfect hstagnation
    obtain ⟨hlimit, hge⟩ := hstops.otherwise hperfect hstagnation
    exact ⟨hlimit, Nat.le_antisymm hle hge⟩
  · intro count hpos hlt
    obtain ⟨hperfect, hstagnant⟩ := hstops.earlier count hlt hpos
    exact ⟨hperfect, hstagnant, Nat.lt_of_lt_of_le hlt hle⟩

theorem run_stops_small : ∃ e t outcome, prepare smallProgram smallSettings = .ok e ∧
    e.settings.check = .ok () ∧ e.seed.tree? = .ok t ∧ (∀ moment, Surroundings.cancelled {} moment = false) ∧
    e.run Generator {} = .ok (outcome, { e with phase := .terminated }) ∧
    outcome.generations ≤ 3 ∧ outcome.stats.map GenerationStats.generation = List.range outcome.generations := by
  obtain ⟨e, he⟩ := exists_smallRun
  obtain ⟨hcheck, hsettings, -, t, ht⟩ := prepare_eq_ok he
  have huncancelled : ∀ moment, Surroundings.cancelled {} moment = false := fun _ => rfl
  obtain ⟨outcome, hrun, -, hle, hnumbers, -⟩ := run_stops (G := Generator) hcheck ht huncancelled
  rw [hsettings] at hle
  exact ⟨e, t, outcome, he, hcheck, ht, huncancelled, hrun, hle, hnumbers⟩

end Evolution

end ProgramBreeding

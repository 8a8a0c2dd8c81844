import ProgramBreeding.Breeding.Evolution
import ProgramBreeding.Proofs.Breeding.Selection

/-!
# Parents that are drawn

Whatever the totals, the settings and the source of random numbers, a draw of a position comes to one that may
be drawn, as long as there is any.  So each parent is found, and two parents stand at different positions if
there are two candidates.

## Main definitions

* `Chance.Yields` — a draw that always comes to something.
* `IsEligible` — a position that may be drawn.
* `drawPosition_yields` — both ways of choosing draw such a position.
* `selectTwo_yields` — two parents.
* `Evolution.matingPool_isPool` — the parents of a generation have different texts.

## Design notes

That there is a position to be drawn at all is one hypothesis, `∃ i, IsEligible size excluded i`.  It stands for
both cases of the draws: some candidate where none is left out, and two of them where one is.
-/

namespace ProgramBreeding

open Chance

/-! ### Draws that come to something -/

namespace Chance

variable {G α β : Type} {P : β → Prop} {Q R : α → Prop}

/-- Whatever the state of the source, something is drawn, and it has the property. -/
def Yields (G : Type) (d : Draw G (Option α)) (Q : α → Prop) : Prop :=
  Always G d fun result => ∃ a, result = some a ∧ Q a

theorem Always.imp {d : Draw G α} (h : Always G d Q) (himp : ∀ a, Q a → R a) : Always G d R := fun g => himp _ (h g)

theorem Always.and {d : Draw G α} (hq : Always G d Q) (hr : Always G d R) : Always G d fun a => Q a ∧ R a :=
  fun g => ⟨hq g, hr g⟩

theorem Yields.bind {d : Draw G (Option α)} {f : Option α → Draw G β} (hd : Yields G d Q)
    (hf : ∀ a, Q a → Always G (f (some a)) P) : Always G (d >>= f) P := by
  refine Always.bind hd fun result hresult => ?_
  obtain ⟨a, rfl, ha⟩ := hresult
  exact hf a ha

theorem Yields.pure {a : α} (h : Q a) : Yields G (Pure.pure (some a)) Q := Always.pure ⟨a, rfl, h⟩

/-- A number that is drawn from a range is in it. -/
theorem always_below_lt [RandomSource G] {size : Nat} (h : 0 < size) : Always G (below size) fun i => i < size :=
  RandomSource.below_lt h

end Chance

/-! ### Positions -/

/-- A position less than `size` that is not left out. -/
structure IsEligible (size : Nat) (excluded : Option Nat) (i : Nat) : Prop where
  lt : i < size
  ne : excluded ≠ some i

variable {G : Type} [RandomSource G] {totals : List Double} {excluded : Option Nat} {size : Nat}

theorem exists_isEligible (h : 0 < size) : ∃ i, IsEligible size none i := ⟨0, h, nofun⟩

theorem exists_isEligible_some (h : 2 ≤ size) (skipped : Nat) : ∃ i, IsEligible size (some skipped) i := by
  by_cases hskipped : skipped = 0
  · refine ⟨1, h, fun heq => ?_⟩
    cases heq
    cases hskipped
  · refine ⟨0, Nat.lt_of_lt_of_le Nat.zero_lt_two h, fun heq => hskipped ?_⟩
    cases heq
    rfl

theorem uniform_yields (h : ∃ i, IsEligible size excluded i) :
    Yields G (uniform size excluded) (IsEligible size excluded) := by
  obtain ⟨j, hj, hne⟩ := h
  unfold uniform
  cases hskipped : excluded.filter fun skipped => skipped < size with
  | none =>
    dsimp only
    rw [if_neg (by omega)]
    refine (always_below_lt (by omega)).bind fun i hi => Yields.pure ⟨hi, fun heq => ?_⟩
    rw [heq, Option.filter_some_pos (by simpa using hi)] at hskipped
    cases hskipped
  | some skipped =>
    obtain ⟨rfl, hlt⟩ := Option.filter_eq_some_iff.mp hskipped
    have hlt : skipped < size := by simpa using hlt
    have hother : j ≠ skipped := fun heq => hne (congrArg some heq.symm)
    dsimp only
    rw [if_neg (by omega)]
    -- One position is skipped, so those after it are one more than what is drawn.
    have hpos : 0 < size - 1 := by omega
    refine (always_below_lt hpos).bind fun i hi => Yields.pure ?_
    constructor
    · split <;> omega
    · intro heq
      have heq : skipped = if skipped ≤ i then i + 1 else i := Option.some.inj heq
      split at heq <;> omega

/-- By induction on the rounds of a tournament: the best so far may be drawn. -/
theorem challenge_eligible : ∀ (rounds : Nat) {best : Nat}, IsEligible totals.length excluded best →
    Always G (challenge totals excluded rounds best) (IsEligible totals.length excluded)
  | 0, _, hbest => .pure hbest
  | rounds + 1, best, hbest => by
    refine (uniform_yields ⟨best, hbest⟩).bind fun i hi => challenge_eligible rounds ?_
    split
    · exact hi
    · exact hbest

theorem tournament_yields (h : ∃ i, IsEligible totals.length excluded i) (size : Nat) :
    Yields G (tournament totals size excluded) (IsEligible totals.length excluded) := by
  refine (uniform_yields h).bind fun first hfirst => ?_
  exact (challenge_eligible (size - 1) hfirst).bind fun best hbest => Yields.pure hbest

/-! ### Shares -/

theorem getElem?_shares (totals : List Double) (excluded : Option Nat) (i : Nat) :
    (shares totals excluded)[i]? = totals[i]?.map fun total =>
      if some i == excluded || !total.isFinite || total ≤ 0.0 then 0.0 else total := by
  rw [shares, List.getElem?_map, List.getElem?_zipIdx, Nat.zero_add, Option.map_map]
  rfl

/-- A position with a positive share may be drawn. -/
theorem IsEligible.of_share {i : Nat} {share : Double} (h : (shares totals excluded)[i]? = some share)
    (hpos : ¬ share ≤ 0.0) : IsEligible totals.length excluded i := by
  rw [getElem?_shares] at h
  obtain ⟨total, htotal, rfl⟩ := Option.map_eq_some_iff.mp h
  refine ⟨(List.getElem?_eq_some_iff.mp htotal).1, fun heq => hpos ?_⟩
  rw [heq]
  simp only [BEq.rfl, Bool.true_or, if_true]
  exact Double.inUnit_zero.low

/-- A share that is not positive is zero. -/
theorem eq_zero_of_mem_shares {share : Double} (h : share ∈ shares totals excluded) (hle : share ≤ 0.0) :
    share = 0.0 := by
  obtain ⟨⟨total, i⟩, -, rfl⟩ := List.mem_map.mp h
  dsimp only at hle ⊢
  split at hle
  · rename_i hnone
    rw [if_pos hnone]
  · rename_i hsome
    simp only [Bool.or_eq_true, decide_eq_true_eq, not_or] at hsome
    exact absurd hle hsome.2

/-- A sum of zeros is zero, whatever its sign. -/
theorem foldl_add_zeros : ∀ {xs : List Double} {sum : Double}, (∀ x ∈ xs, x = 0.0) →
    sum = 0.0 ∨ sum = Number.negativeZero → xs.foldl (· + ·) sum ≤ 0.0
  | [], sum, _, hsum => by
    rcases hsum with rfl | rfl
    · exact Double.inUnit_zero.low
    · decide
  | x :: xs, sum, hxs, hsum => by
    obtain ⟨rfl, hrest⟩ := List.forall_mem_cons.mp hxs
    show xs.foldl (· + ·) (sum + 0.0) ≤ 0.0
    refine foldl_add_zeros hrest (.inl ?_)
    rcases hsum with rfl | rfl <;> decide +kernel

/-- If the shares have a positive sum, one of them is positive. -/
theorem exists_positive_share (h : ¬ Number.sum (shares totals excluded) ≤ 0.0) :
    ∃ share ∈ shares totals excluded, ¬ share ≤ 0.0 := by
  by_contra hnone
  refine h (foldl_add_zeros (fun share hshare => eq_zero_of_mem_shares hshare ?_) (.inr rfl))
  by_contra hpos
  exact hnone ⟨share, hshare, hpos⟩

/-- The bucket that a number falls into has a positive share, or it is the last one before. -/
theorem bucket_eq_some : ∀ {shares : List Double} {i : Nat} {pick : Double} {last : Option Nat} {j : Nat},
    bucket shares i pick last = some j →
      last = some j ∨ ∃ k share, shares[k]? = some share ∧ ¬ share ≤ 0.0 ∧ j = i + k
  | [], _, _, _, _, h => .inl h
  | share :: rest, i, pick, last, j, h => by
    rw [bucket] at h
    -- A bucket among the rest is counted from the next position.
    have hshift : (∃ k share, rest[k]? = some share ∧ ¬ share ≤ 0.0 ∧ j = i + 1 + k) →
        ∃ k share', (share :: rest)[k]? = some share' ∧ ¬ share' ≤ 0.0 ∧ j = i + k := by
      rintro ⟨k, share', hshare, hpos, rfl⟩
      exact ⟨k + 1, share', hshare, hpos, by omega⟩
    split at h
    · exact (bucket_eq_some h).imp_right hshift
    · rename_i hpos
      split at h
      · cases h
        exact .inr ⟨0, share, rfl, hpos, rfl⟩
      · rcases bucket_eq_some h with hlast | hrest
        · cases hlast
          exact .inr ⟨0, share, rfl, hpos, rfl⟩
        · exact .inr (hshift hrest)

/-- Some bucket is found, unless there is no positive share and there was none before. -/
theorem bucket_ne_none : ∀ {shares : List Double} {i : Nat} {pick : Double} {last : Option Nat},
    (last ≠ none ∨ ∃ share ∈ shares, ¬ share ≤ 0.0) → bucket shares i pick last ≠ none
  | [], _, _, _, h => h.resolve_right nofun
  | share :: rest, i, pick, last, h => by
    rw [bucket]
    split
    · rename_i hzero
      refine bucket_ne_none (h.imp_right ?_)
      rintro ⟨other, hother, hpos⟩
      rcases List.mem_cons.mp hother with rfl | hother
      · exact absurd hzero hpos
      · exact ⟨other, hother, hpos⟩
    · split
      · exact nofun
      · exact bucket_ne_none (.inl nofun)

theorem roulette_yields (h : ∃ i, IsEligible totals.length excluded i) :
    Yields G (roulette totals excluded) (IsEligible totals.length excluded) := by
  unfold roulette
  dsimp only
  split
  · exact uniform_yields h
  · rename_i hsum
    refine (Always.trivial _).bind fun pick _ => ?_
    have hfound : bucket (shares totals excluded) 0 pick none ≠ none :=
      bucket_ne_none (.inr (exists_positive_share hsum))
    obtain ⟨j, hj⟩ := Option.ne_none_iff_exists'.mp hfound
    rw [hj]
    refine Yields.pure ?_
    rcases bucket_eq_some hj with hlast | ⟨k, share, hshare, hpos, rfl⟩
    · cases hlast
    · rw [Nat.zero_add]
      exact .of_share hshare hpos

/-! ### Candidates -/

variable {settings : SelectionSettings} {population : List Variant}

/-- In both ways of choosing, a position is drawn that may be. -/
theorem drawPosition_yields (settings : SelectionSettings) (h : ∃ i, IsEligible totals.length excluded i) :
    Yields G (drawPosition settings totals excluded) (IsEligible totals.length excluded) := by
  unfold drawPosition
  cases settings.strategy with
  | tournament => exact tournament_yields h settings.tournamentSize
  | roulette => exact roulette_yields h

theorem drawPositions_lt (settings : SelectionSettings) (h : 0 < totals.length) : ∀ count : Nat,
    Always G (drawPositions settings totals count) fun positions =>
      positions.length = count ∧ ∀ i ∈ positions, i < totals.length
  | 0 => .pure ⟨rfl, nofun⟩
  | count + 1 => by
    refine (drawPosition_yields settings (exists_isEligible h)).bind fun i hi => ?_
    refine (drawPositions_lt settings h count).bind fun rest ⟨hlength, hrest⟩ => .pure ?_
    refine ⟨?_, List.forall_mem_cons.mpr ⟨hi.lt, hrest⟩⟩
    rw [← hlength]
    rfl

/-- As many parents are drawn as there are candidates. -/
theorem select_length (settings : SelectionSettings) (h : population ≠ []) :
    Always G (select settings population) fun parents => parents.length = population.length := by
  have hpos : 0 < (population.map Variant.total).length := by
    rw [List.length_map]
    exact List.length_pos_iff.mpr h
  refine (drawPositions_lt settings hpos population.length).bind fun positions ⟨hlength, hlt⟩ => .pure ?_
  rw [List.length_map] at hlt
  rw [List.length_filterMap_eq_countP, List.countP_eq_length.mpr, hlength]
  intro i hi
  rw [List.getElem?_eq_getElem (hlt i hi)]
  rfl

/-- Two positions are drawn, different ones if there are two. -/
theorem drawTwo_yields (settings : SelectionSettings) (h : 0 < totals.length) :
    Yields G (drawTwo settings totals) fun (i, j) =>
      i < totals.length ∧ j < totals.length ∧ (2 ≤ totals.length → i ≠ j) := by
  refine (drawPosition_yields settings (exists_isEligible h)).bind fun first hfirst => ?_
  dsimp only
  by_cases htwo : 1 < totals.length
  · rw [if_pos htwo]
    refine (drawPosition_yields settings (exists_isEligible_some htwo first)).bind fun second hsecond => Yields.pure ?_
    refine ⟨hfirst.lt, hsecond.lt, fun _ heq => ?_⟩
    exact hsecond.ne (congrArg some heq)
  · rw [if_neg htwo]
    refine (drawPosition_yields settings (exists_isEligible h)).bind fun second hsecond => Yields.pure ?_
    exact ⟨hfirst.lt, hsecond.lt, fun hsize => absurd hsize htwo⟩

/-- Two parents are found, at different positions if there are two candidates. -/
theorem selectTwo_yields (settings : SelectionSettings) (h : population ≠ []) :
    Yields G (selectTwo settings population) fun (a, b) =>
      ∃ i j : Nat, population[i]? = some a ∧ population[j]? = some b ∧ (2 ≤ population.length → i ≠ j) := by
  have hpos : 0 < (population.map Variant.total).length := by
    rw [List.length_map]
    exact List.length_pos_iff.mpr h
  refine (drawTwo_yields settings hpos).bind fun (i, j) ⟨hi, hj, hne⟩ => ?_
  rw [List.length_map] at hi hj hne
  dsimp only
  rw [List.getElem?_eq_getElem hi, List.getElem?_eq_getElem hj]
  exact Yields.pure ⟨i, j, List.getElem?_eq_getElem hi, List.getElem?_eq_getElem hj, hne⟩

/-! ### The parents of a generation -/

/-- Candidates that parents are drawn from: there are some, and their texts are different. -/
structure IsPool (pool : List Variant) : Prop where
  ne_nil : pool ≠ []
  nodup : (pool.map Variant.source).Nodup

/-- Two parents from a pool of two or more have different texts. -/
theorem IsPool.selectTwo_yields {pool : List Variant} (h : IsPool pool) (settings : SelectionSettings) :
    Yields G (selectTwo settings pool) fun (a, b) =>
      a ∈ pool ∧ b ∈ pool ∧ (2 ≤ pool.length → a.source ≠ b.source) := by
  refine (ProgramBreeding.selectTwo_yields settings h.ne_nil).imp ?_
  rintro _ ⟨⟨a, b⟩, rfl, i, j, hi, hj, hne⟩
  refine ⟨(a, b), rfl, List.mem_of_getElem? hi, List.mem_of_getElem? hj, fun htwo heq => ?_⟩
  refine hne htwo ((List.getElem?_inj ?_ h.nodup).mp ?_)
  · rw [List.length_map]
    exact (List.getElem?_eq_some_iff.mp hi).1
  · rw [List.getElem?_map, List.getElem?_map, hi, hj]
    exact congrArg some heq

/-- The first of those with one text have different texts, none of which has come before. -/
theorem distinctTexts_nodup : ∀ (seen : List String) (population : List Variant),
    ((distinctTexts seen population).map Variant.source).Nodup ∧
      ∀ v ∈ distinctTexts seen population, v.source ∉ seen
  | _, [] => ⟨List.nodup_nil, nofun⟩
  | seen, v :: rest => by
    unfold distinctTexts
    split
    · exact distinctTexts_nodup seen rest
    · rename_i hnew
      rw [List.contains_iff_mem] at hnew
      obtain ⟨hnodup, hfresh⟩ := distinctTexts_nodup (v.source :: seen) rest
      constructor
      · refine List.nodup_cons.mpr ⟨fun hmem => ?_, hnodup⟩
        obtain ⟨w, hw, heq⟩ := List.mem_map.mp hmem
        exact hfresh w hw (heq ▸ List.mem_cons_self ..)
      · refine List.forall_mem_cons.mpr ⟨hnew, fun w hw hseen => ?_⟩
        exact hfresh w hw (List.mem_cons_of_mem _ hseen)

theorem distinctTexts_ne_nil (h : population ≠ []) : distinctTexts [] population ≠ [] := by
  cases population with
  | nil => exact absurd rfl h
  | cons v rest => exact nofun

theorem Evolution.matingPool_isPool (settings : SelectionSettings) (h : population ≠ []) :
    Always G (matingPool settings population) IsPool := by
  refine (select_length settings h).bind fun parents hlength => .pure ?_
  have hparents : parents ≠ [] := fun hnone => by
    rw [hnone] at hlength
    exact h (List.length_eq_zero_iff.mp hlength.symm)
  exact ⟨distinctTexts_ne_nil hparents, (distinctTexts_nodup [] parents).1⟩

end ProgramBreeding

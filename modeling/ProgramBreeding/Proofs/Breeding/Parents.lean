import ProgramBreeding.Proofs.Breeding.Draws
import ProgramBreeding.Proofs.Number.Sums

/-!
# Parents

What a draw of parents guarantees for totals in the unit interval: it always comes to a position that may be
drawn, every such position can come out of a uniform draw, and the winner of a tournament is the first of the
best that took part in it.

## Main definitions

* `MayDraw` — whether there is a position to be drawn.
* `entrants` — the positions that take part in a tournament.
* `IsWinner` — the first of the best of them.
* `DrawsPositions`, `DrawsMembers` — the guarantees for totals and for populations.
* `draws_parents` — they hold.
-/

namespace ProgramBreeding

open Chance

/-! ### Draws that are made in a row -/

namespace Chance

/-- What is drawn after a draw, if that is known. -/
theorem bind_eq {G α β : Type} {d : Draw G α} {f : α → Draw G β} {g g' : G} {a : α} (h : d g = (a, g')) :
    (d >>= f) g = f a g' := by
  show f (d g).1 (d g).2 = _
  rw [h]

theorem Yields.exists_eq {G α : Type} {d : Draw G (Option α)} {Q : α → Prop} (h : Yields G d Q) (g : G) :
    ∃ a g', d g = (some a, g') ∧ Q a := by
  obtain ⟨a, heq, ha⟩ := h g
  exact ⟨a, (d g).2, Prod.ext heq rfl, ha⟩

end Chance

/-! ### Positions -/

variable {G : Type} [RandomSource G] {totals : List Double} {excluded : Option Nat} {size : Nat}

/-- Each position that may be drawn is drawn in some state of the source. -/
theorem exists_uniform_eq (G : Type) [RandomSource G] (hsize : size ≤ UInt64.size) {i : Nat}
    (h : IsEligible size excluded i) :
    ∃ g : G, (uniform size excluded g).1 = some i := by
  obtain ⟨hi, hne⟩ := h
  unfold uniform
  cases hskipped : excluded.filter fun skipped => skipped < size with
  | none =>
    obtain ⟨g, hg⟩ := RandomSource.exists_below_eq (G := G) hsize hi
    refine ⟨g, ?_⟩
    dsimp only
    rw [if_neg (by omega)]
    exact congrArg some hg
  | some skipped =>
    obtain ⟨rfl, hlt⟩ := Option.filter_eq_some_iff.mp hskipped
    have hlt : skipped < size := by simpa using hlt
    have hother : skipped ≠ i := fun heq => hne (congrArg some heq)
    -- Positions after the one that is skipped are drawn one lower.
    have hbelow : (if skipped < i then i - 1 else i) < size - 1 := by split <;> omega
    obtain ⟨g, hg⟩ := RandomSource.exists_below_eq (G := G) (by omega) hbelow
    refine ⟨g, ?_⟩
    dsimp only
    rw [if_neg (by omega)]
    show some (if skipped ≤ (below (size - 1) g).1 then (below (size - 1) g).1 + 1 else (below (size - 1) g).1) = some i
    rw [hg]
    congr 1
    split <;> split <;> omega

/-! ### Tournaments -/

/-- The positions that take part in a tournament: so many uniform draws. -/
def entrants (size : Nat) (excluded : Option Nat) : Nat → Draw G (List Nat)
  | 0 => return []
  | count + 1 => do
    let i ← uniform size excluded
    let rest ← entrants size excluded count
    return i.toList ++ rest

/-- Of the positions that were drawn, no one has a higher total than `best`, and those drawn before it have lower
ones. -/
structure IsWinner (totals : List Double) (drawn : List Nat) (best : Nat) : Prop where
  le : ∀ i ∈ drawn, totalAt totals i ≤ totalAt totals best
  first : ∃ before after, drawn = before ++ best :: after ∧ ∀ i ∈ before, totalAt totals i < totalAt totals best

/-- The totals are numbers, so that they can be compared. -/
theorem isNaN_totalAt (h : ∀ x ∈ totals, x.InUnit) (i : Nat) : (totalAt totals i).isNaN = false := by
  unfold totalAt
  cases htotal : totals[i]? with
  | none => exact Double.inUnit_zero.isNaN_eq
  | some x => exact (h x (List.mem_of_getElem? htotal)).isNaN_eq

namespace IsWinner

variable {drawn : List Nat} {best : Nat}

protected theorem singleton (h : ∀ x ∈ totals, x.InUnit) (i : Nat) : IsWinner totals [i] i := by
  refine ⟨fun j hj => ?_, [], [], rfl, fun _ hj => absurd hj (List.not_mem_nil)⟩
  rw [List.mem_singleton.mp hj]
  exact Double.le_rfl (isNaN_totalAt h i)

/-- The winner so far stays it unless the next one is better. -/
theorem next (h : ∀ x ∈ totals, x.InUnit) (hbest : IsWinner totals drawn best) (i : Nat) :
    IsWinner totals (drawn ++ [i]) (if totalAt totals best < totalAt totals i then i else best) := by
  split
  · rename_i hlt
    have hbelow : ∀ j ∈ drawn, totalAt totals j < totalAt totals i :=
      fun j hj => Double.lt_of_le_of_lt (hbest.le j hj) hlt
    refine ⟨fun j hj => ?_, drawn, [], rfl, hbelow⟩
    rcases List.mem_append.mp hj with hj | hj
    · exact Double.le_of_lt (hbelow j hj)
    · rw [List.mem_singleton.mp hj]
      exact Double.le_rfl (isNaN_totalAt h i)
  · rename_i hlt
    obtain ⟨before, after, hsplit, hbefore⟩ := hbest.first
    refine ⟨fun j hj => ?_, before, after ++ [i], by rw [hsplit, List.append_assoc, List.cons_append], hbefore⟩
    rcases List.mem_append.mp hj with hj | hj
    · exact hbest.le j hj
    · rw [List.mem_singleton.mp hj]
      exact Double.le_of_not_lt (isNaN_totalAt h i) (isNaN_totalAt h best) hlt

end IsWinner

/-- The rounds of a tournament find the winner of all draws.  By induction on the rounds that are left, with what
was drawn before. -/
theorem challenge_isWinner (h : ∀ x ∈ totals, x.InUnit) (hany : ∃ i, IsEligible totals.length excluded i) :
    ∀ (rounds : Nat) {drawn : List Nat} {best : Nat}, IsWinner totals drawn best → ∀ g : G, ∃ more winner g',
      entrants totals.length excluded rounds g = (more, g') ∧ challenge totals excluded rounds best g = (winner, g') ∧
        more.length = rounds ∧ IsWinner totals (drawn ++ more) winner
  | 0, drawn, best, hbest, g => ⟨[], best, g, rfl, rfl, rfl, by rwa [List.append_nil]⟩
  | rounds + 1, drawn, best, hbest, g => by
    obtain ⟨i, next, hdraw, -⟩ := (uniform_yields hany).exists_eq g
    obtain ⟨more, winner, g', hentrants, hchallenge, hlength, hwinner⟩ :=
      challenge_isWinner h hany rounds (hbest.next h i) next
    refine ⟨i :: more, winner, g', ?_, ?_, congrArg Nat.succ hlength, ?_⟩
    · exact (bind_eq hdraw).trans (bind_eq hentrants)
    · exact (bind_eq hdraw).trans hchallenge
    · rwa [List.append_assoc, List.singleton_append] at hwinner

/-- A tournament finds the winner of all its draws, of which there is at least one. -/
theorem tournament_isWinner (h : ∀ x ∈ totals, x.InUnit) (hany : ∃ i, IsEligible totals.length excluded i)
    (size : Nat) (g : G) : ∃ drawn winner g',
      entrants totals.length excluded (max size 1) g = (drawn, g') ∧
        tournament totals size excluded g = (some winner, g') ∧ drawn.length = max size 1 ∧
        IsWinner totals drawn winner := by
  obtain ⟨first, next, hdraw, -⟩ := (uniform_yields hany).exists_eq g
  obtain ⟨more, winner, g', hentrants, hchallenge, hlength, hwinner⟩ :=
    challenge_isWinner h hany (size - 1) (.singleton h first) next
  rw [show max size 1 = size - 1 + 1 by omega]
  refine ⟨first :: more, winner, g', ?_, ?_, congrArg Nat.succ hlength, hwinner⟩
  · exact (bind_eq hdraw).trans (bind_eq hentrants)
  · exact (bind_eq hdraw).trans (bind_eq hchallenge)

/-! ### The limit of a draw by totals -/

/-- A share is a number without sign that is at most one. -/
theorem isShare_of_mem_shares (h : ∀ x ∈ totals, x.InUnit) {share : Double} (hshare : share ∈ shares totals excluded) :
    share.isNegative = false ∧ share ≤ 1.0 := by
  by_cases hzero : share ≤ 0.0
  · rw [eq_zero_of_mem_shares hshare hzero]
    exact ⟨by decide, Double.inUnit_zero.high⟩
  · obtain ⟨i, hi⟩ := List.getElem?_of_mem hshare
    rw [getElem?_shares] at hi
    obtain ⟨total, htotal, rfl⟩ := Option.map_eq_some_iff.mp hi
    have hunit := h total (List.mem_of_getElem? htotal)
    split at hzero
    · exact absurd Double.inUnit_zero.low hzero
    · rename_i hsome
      rw [if_neg hsome]
      have hpos : 0.0 < total := Double.lt_of_not_le hunit.isNaN_eq Double.inUnit_zero.isNaN_eq hzero
      exact ⟨Double.isNegative_of_pos hpos, hunit.high⟩

/-- The shares that a limit is the sum of: a draw below it is one from a finite interval that is not empty. -/
theorem sum_shares_isLimit (h : ∀ x ∈ totals, x.InUnit) (hsum : ¬ Number.sum (shares totals excluded) ≤ 0.0) :
    0.0 < Number.sum (shares totals excluded) ∧ (Number.sum (shares totals excluded)).isFinite = true := by
  have hfinite : (Number.sum (shares totals excluded)).isFinite = true :=
    (Double.isPartialSum_sum fun _ hshare => isShare_of_mem_shares h hshare).isFinite
  exact ⟨Double.lt_of_not_le (Double.isNaN_eq_false_of_isFinite hfinite) Double.inUnit_zero.isNaN_eq hsum, hfinite⟩

/-! ### Populations -/

variable {population : List Variant}

theorem mem_of_mem_select (settings : SelectionSettings) (population : List Variant) :
    Always G (select settings population) fun parents => ∀ v ∈ parents, v ∈ population := by
  refine (Always.trivial _).bind fun positions _ => .pure fun v hv => ?_
  obtain ⟨i, -, hi⟩ := List.mem_filterMap.mp hv
  exact List.mem_of_getElem? hi

/-- Nothing is drawn where there is nothing. -/
theorem drawPosition_nil (settings : SelectionSettings) :
    Always G (drawPosition settings [] none) fun result => result = none := by
  unfold drawPosition
  cases settings.strategy with
  | tournament => exact fun _ => rfl
  | roulette =>
    unfold roulette
    dsimp only
    rw [if_pos (show Number.sum (shares [] none) ≤ 0.0 by decide)]
    exact fun _ => rfl

theorem selectTwo_nil (settings : SelectionSettings) :
    Always G (selectTwo settings []) fun result => result = none := by
  refine Always.bind (Q := fun result => result = none) ?_ ?_
  · refine (drawPosition_nil settings).bind fun result hresult => ?_
    rw [hresult]
    exact .pure rfl
  · intro result hresult
    rw [hresult]
    exact .pure rfl

/-! ### The guarantees -/

/-- Whether there is a position to be drawn: some candidate where none is left out, and two where one is. -/
def MayDraw (size : Nat) : Option Nat → Prop
  | none => 0 < size
  | some _ => 2 ≤ size

theorem MayDraw.exists_isEligible (h : MayDraw size excluded) : ∃ i, IsEligible size excluded i := by
  cases excluded with
  | none => exact ProgramBreeding.exists_isEligible h
  | some skipped => exact exists_isEligible_some h skipped

/-- What a draw of positions guarantees for some totals. -/
structure DrawsPositions (G : Type) [RandomSource G] (settings : SelectionSettings) (totals : List Double) : Prop where
  /-- Whatever the state of the source, a position is drawn that is in range and not the one left out. -/
  yields : ∀ excluded, MayDraw totals.length excluded →
    Yields G (drawPosition settings totals excluded) fun i => i < totals.length ∧ excluded ≠ some i
  /-- Every position in range that is not left out is what some uniform draw comes to. -/
  reaches : ∀ excluded i, i < totals.length → excluded ≠ some i → ∃ g : G, (uniform totals.length excluded g).1 = some i
  /-- A tournament makes as many uniform draws as it has rounds, at least one, and comes to the first of the best. -/
  winner : settings.strategy = .tournament → ∀ excluded, MayDraw totals.length excluded → ∀ g : G, ∃ drawn best g',
    entrants totals.length excluded (max settings.tournamentSize 1) g = (drawn, g') ∧
      drawPosition settings totals excluded g = (some best, g') ∧
      drawn.length = max settings.tournamentSize 1 ∧ IsWinner totals drawn best
  /-- A draw by totals is one below a limit that is positive and finite. -/
  limit : ∀ excluded, ¬ Number.sum (shares totals excluded) ≤ 0.0 →
    0.0 < Number.sum (shares totals excluded) ∧ (Number.sum (shares totals excluded)).isFinite = true

/-- What a draw of parents guarantees for a population. -/
structure DrawsMembers (G : Type) [RandomSource G] (settings : SelectionSettings) (population : List Variant) :
    Prop where
  /-- As many members are drawn as there are. -/
  select : ∀ g : G, (select settings population g).1.length = population.length ∧
    ∀ v ∈ (select settings population g).1, v ∈ population
  /-- There are no two parents only if there is no member. -/
  none_iff : ∀ g : G, (selectTwo settings population g).1 = none ↔ population = []
  /-- Two parents stand at the positions that were drawn, which differ if there are two members. -/
  two : population ≠ [] → ∀ g : G, ∃ i j a b, (drawTwo settings (population.map Variant.total) g).1 = some (i, j) ∧
    (selectTwo settings population g).1 = some (a, b) ∧ population[i]? = some a ∧ population[j]? = some b ∧
    (2 ≤ population.length → i ≠ j)

theorem drawsPositions (G : Type) [RandomSource G] (settings : SelectionSettings) (h : ∀ x ∈ totals, x.InUnit)
    (hsize : totals.length < UInt64.size) : DrawsPositions G settings totals where
  yields excluded hmay := (drawPosition_yields settings hmay.exists_isEligible).imp fun _ ⟨i, heq, hi⟩ =>
    ⟨i, heq, hi.lt, hi.ne⟩
  reaches excluded i hi hne := exists_uniform_eq G (Nat.le_of_lt hsize) ⟨hi, hne⟩
  winner hstrategy excluded hmay g := by
    unfold drawPosition
    rw [hstrategy]
    exact tournament_isWinner h hmay.exists_isEligible settings.tournamentSize g
  limit excluded hsum := sum_shares_isLimit h hsum

/-- The two parents are the members at the two positions. -/
theorem selectTwo_eq (settings : SelectionSettings) (h : population ≠ []) (g : G) :
    ∃ i j a b, (drawTwo settings (population.map Variant.total) g).1 = some (i, j) ∧
      (selectTwo settings population g).1 = some (a, b) ∧ population[i]? = some a ∧ population[j]? = some b ∧
      (2 ≤ population.length → i ≠ j) := by
  have hpos : 0 < (population.map Variant.total).length := by
    rw [List.length_map]
    exact List.length_pos_iff.mpr h
  obtain ⟨⟨i, j⟩, g', hdraw, hi, hj, hne⟩ := (drawTwo_yields settings hpos).exists_eq g
  rw [List.length_map] at hi hj hne
  have ha := List.getElem?_eq_getElem hi
  have hb := List.getElem?_eq_getElem hj
  refine ⟨i, j, population[i], population[j], congrArg Prod.fst hdraw, ?_, ha, hb, hne⟩
  unfold selectTwo
  rw [bind_eq hdraw]
  dsimp only
  rw [ha, hb]
  rfl

theorem drawsMembers (G : Type) [RandomSource G] (settings : SelectionSettings) (population : List Variant) :
    DrawsMembers G settings population where
  select g := by
    refine ⟨?_, mem_of_mem_select settings population g⟩
    by_cases h : population = []
    · rw [h]
      rfl
    · exact select_length settings h g
  none_iff g := by
    constructor
    · intro hnone
      by_contra h
      obtain ⟨i, j, a, b, -, hsome, -⟩ := selectTwo_eq settings h g
      rw [hnone] at hsome
      cases hsome
    · intro h
      rw [h]
      exact selectTwo_nil settings g
  two h g := selectTwo_eq settings h g

/-- Parents are drawn from totals in the unit interval as they should be, whatever the settings; the number of
totals is a word. -/
theorem draws_parents (G : Type) [RandomSource G] (settings : SelectionSettings) (totals : List Double)
    (population : List Variant) (h : ∀ x ∈ totals, x.InUnit) (hsize : totals.length < UInt64.size) :
    DrawsPositions G settings totals ∧ DrawsMembers G settings population :=
  ⟨drawsPositions G settings h hsize, drawsMembers G settings population⟩

theorem draws_parents_three :
    (∀ x ∈ [(0.5 : Double), 0.0, 1.0], x.InUnit) ∧ [(0.5 : Double), 0.0, 1.0].length < UInt64.size ∧
      DrawsPositions Generator { tournamentSize := 2 } [0.5, 0.0, 1.0] ∧
      DrawsMembers Generator { tournamentSize := 2 } [⟨"", none⟩, ⟨"pass", none⟩] := by
  have hunit : ∀ x ∈ [(0.5 : Double), 0.0, 1.0], x.InUnit := by
    simp only [List.forall_mem_cons]
    exact ⟨⟨by decide, by decide⟩, Double.inUnit_zero, Double.inUnit_one, fun _ hx => absurd hx List.not_mem_nil⟩
  have hsize : [(0.5 : Double), 0.0, 1.0].length < UInt64.size := by decide
  refine ⟨hunit, hsize, ?_⟩
  exact draws_parents Generator { tournamentSize := 2 } [0.5, 0.0, 1.0] [⟨"", none⟩, ⟨"pass", none⟩] hunit hsize

end ProgramBreeding

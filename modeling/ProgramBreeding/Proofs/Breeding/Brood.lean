import ProgramBreeding.Proofs.Breeding.Course
import ProgramBreeding.Proofs.Breeding.Draws

/-!
# From one generation to the next

A generation is followed by one of the same size.  Its first part are children, each born of two parents and
then mutated, and its last part the best candidates of the generation before, as they are.

## Main definitions

* `Birth`, `Brood` — a child with its parents, and all that is made between two generations.
* `Evolution.brood`, `Evolution.breed_eq` — breeding with an account of it.
* `Brood.IsComplete` — what is made, and of what.
* `Evolution.Reaches.length_population` — every generation has the size that is set.
* `Evolution.generations_keep_size` — breeding and whole runs together.

## Design notes

Breeding leaves nothing but the next generation.  `brood` makes the same draws and keeps the parents, the
elites and the children before mutation as well, so that something can be said about them.
-/

namespace ProgramBreeding

open Chance

variable {G : Type} [RandomSource G]

/-- A child before mutation, with its two parents. -/
structure Birth where
  first : Variant
  second : Variant
  child : Variant

/-- All that is made between two generations. -/
structure Brood where
  /-- The candidates that parents are drawn from. -/
  pool : List Variant
  /-- The best candidates, which are taken over as they are. -/
  elites : List Variant
  births : List Birth
  /-- The children after mutation, in the order of their births. -/
  mutated : List Variant

/-- The generation that follows. -/
def Brood.next (b : Brood) : List Variant := b.mutated ++ b.elites

namespace Evolution

/-- A child before mutation with its parents; there is none without parents. -/
def birth? (settings : EvolutionSettings) (pool : List Variant) : Draw G (Option Birth) := do
  match ← selectTwo settings.selection pool with
  | none => return none
  | some (a, b) =>
    if ← chance settings.crossover.rate then return some ⟨a, b, ← crossover settings.crossover a b⟩
    else return some ⟨a, b, a.offspring⟩

/-- Children before mutation with their parents, at most so many. -/
def births (settings : EvolutionSettings) (pool : List Variant) : Nat → Draw G (List Birth)
  | 0 => return []
  | count + 1 => do
    match ← birth? settings pool with
    | none => return []
    | some birth => return birth :: (← births settings pool count)

/-- All that is made after a generation that was judged. -/
def brood (settings : EvolutionSettings) (m : Mutator) (population : List Variant) : Draw G Brood := do
  let pool ← matingPool settings.selection population
  let elites := elite population (min settings.selection.eliteCount settings.populationSize)
  let births ← births settings pool (settings.populationSize - elites.length)
  return { pool, elites, births, mutated := ← mutateAll m (births.map Birth.child) }

/-! ### The same draws -/

theorem child?_eq (settings : EvolutionSettings) (pool : List Variant) :
    child? (G := G) settings pool = Option.map Birth.child <$> birth? settings pool := by
  unfold child? birth?
  rw [map_bind]
  refine bind_congr fun pair => ?_
  cases pair with
  | none => rfl
  | some pair =>
    dsimp only
    rw [map_bind]
    refine bind_congr fun both => ?_
    cases both with
    | true => rfl
    | false => rfl

theorem children_eq (settings : EvolutionSettings) (pool : List Variant) : ∀ count : Nat,
    children (G := G) settings pool count = List.map Birth.child <$> births settings pool count
  | 0 => rfl
  | count + 1 => by
    unfold children births
    rw [child?_eq, bind_map_left, map_bind]
    refine bind_congr fun birth => ?_
    cases birth with
    | none => rfl
    | some birth =>
      dsimp only [Option.map_some]
      rw [children_eq settings pool count, bind_map_left, map_bind]
      rfl

/-- Breeding makes the draws of its account and leaves the next generation. -/
theorem breed_eq (settings : EvolutionSettings) (m : Mutator) (population : List Variant) :
    breed (G := G) settings m population = Brood.next <$> brood settings m population := by
  unfold breed brood
  dsimp only
  rw [map_bind]
  refine bind_congr fun pool => ?_
  rw [children_eq, bind_map_left, map_bind]
  refine bind_congr fun births => ?_
  rw [map_bind]
  rfl

theorem breed_fst (settings : EvolutionSettings) (m : Mutator) (population : List Variant) (g : G) :
    (breed settings m population g).1 = (brood settings m population g).1.next := by
  rw [breed_eq]
  rfl

end Evolution

/-! ### Children -/

namespace Chance

/-- What is drawn is drawn in some state of the source. -/
theorem Always.drawn {G α : Type} (d : Draw G α) : Always G d fun a => ∃ g, a = (d g).1 := fun g => ⟨g, rfl⟩

end Chance

/-- A child has two parents from the pool, with different texts if there are two candidates.  It is made of
both of them, or it is a copy of the first. -/
structure Birth.IsFrom (G : Type) [RandomSource G] (settings : EvolutionSettings) (pool : List Variant)
    (b : Birth) : Prop where
  first : b.first ∈ pool
  second : b.second ∈ pool
  differ : 2 ≤ pool.length → b.first.source ≠ b.second.source
  child : (∃ g : G, b.child = (crossover settings.crossover b.first b.second g).1) ∨ b.child = b.first.offspring

namespace Evolution

variable {settings : EvolutionSettings} {pool population : List Variant}

/-- A child is born, whatever is drawn. -/
theorem birth?_yields (h : IsPool pool) : Yields G (birth? settings pool) (Birth.IsFrom G settings pool) := by
  refine (h.selectTwo_yields settings.selection).bind fun (a, b) ⟨ha, hb, hdiffer⟩ => ?_
  refine (Always.trivial _).bind fun both _ => ?_
  cases both with
  | true =>
    refine (Always.drawn _).bind fun child hchild => Yields.pure ?_
    exact ⟨ha, hb, hdiffer, .inl hchild⟩
  | false => exact Yields.pure ⟨ha, hb, hdiffer, .inr rfl⟩

theorem births_isFrom (h : IsPool pool) : ∀ count : Nat,
    Always G (births settings pool count) fun births =>
      births.length = count ∧ ∀ birth ∈ births, birth.IsFrom G settings pool
  | 0 => .pure ⟨rfl, nofun⟩
  | count + 1 => by
    refine (birth?_yields h).bind fun birth hbirth => ?_
    refine (births_isFrom h count).bind fun others ⟨hlength, hothers⟩ => .pure ?_
    exact ⟨congrArg Nat.succ hlength, List.forall_mem_cons.mpr ⟨hbirth, hothers⟩⟩

theorem mutateAll_forall₂ (m : Mutator) : ∀ unborn : List Variant,
    Always G (mutateAll m unborn) (List.Forall₂ (fun v w => ∃ g : G, w = (m.mutate v g).1) unborn)
  | [] => .pure .nil
  | v :: rest => by
    refine (Always.drawn (m.mutate v)).bind fun w hw => ?_
    exact (mutateAll_forall₂ m rest).bind fun others hothers => .pure (.cons hw hothers)

end Evolution

/-! ### Elites -/

theorem elite_length (population : List Variant) (count : Nat) :
    (elite population count).length = min count population.length := by
  rw [elite, List.length_take, (bestFirst_perm population).length_eq]

theorem elite_pairwise (population : List Variant) (count : Nat) :
    (elite population count).Pairwise fun v w => atLeast v.total w.total = true :=
  (bestFirst_pairwise population).sublist (List.take_sublist ..)

/-- Nobody who is left out is better than an elite. -/
theorem exists_perm_elite (population : List Variant) (count : Nat) :
    ∃ rest, population.Perm (elite population count ++ rest) ∧
      ∀ v ∈ elite population count, ∀ w ∈ rest, atLeast v.total w.total = true := by
  refine ⟨(bestFirst population).drop count, ?_, ?_⟩
  · rw [elite, List.take_append_drop]
    exact (bestFirst_perm population).symm
  · have hsorted := bestFirst_pairwise population
    rw [← List.take_append_drop count (bestFirst population), List.pairwise_append] at hsorted
    exact hsorted.2.2

/-! ### Broods -/

/-- What is made between two generations, and of what: there are as many elites as are wanted and can be, the
best candidates as they are, and a mutated child for each of the other places. -/
structure Brood.IsComplete (G : Type) [RandomSource G] (settings : EvolutionSettings) (m : Mutator)
    (population : List Variant) (b : Brood) : Prop where
  pool : IsPool b.pool
  pool_subset : b.pool ⊆ population
  elites_length : b.elites.length = min settings.selection.eliteCount settings.populationSize
  elites_pairwise : b.elites.Pairwise fun v w => atLeast v.total w.total = true
  elites_best : ∃ rest, population.Perm (b.elites ++ rest) ∧
    ∀ v ∈ b.elites, ∀ w ∈ rest, atLeast v.total w.total = true
  births_length : b.births.length = settings.populationSize - min settings.selection.eliteCount settings.populationSize
  births : ∀ birth ∈ b.births, birth.IsFrom G settings b.pool
  mutated : List.Forall₂ (fun birth v => ∃ g : G, v = (m.mutate birth.child g).1) b.births b.mutated

namespace Brood.IsComplete

variable {settings : EvolutionSettings} {m : Mutator} {population : List Variant} {b : Brood}

theorem mutated_length (h : b.IsComplete G settings m population) :
    b.mutated.length = settings.populationSize - min settings.selection.eliteCount settings.populationSize :=
  h.mutated.length_eq ▸ h.births_length

/-- The elites leave places for the children, and together they fill a generation. -/
theorem next_length (h : b.IsComplete G settings m population) : b.next.length = settings.populationSize := by
  rw [next, List.length_append, h.mutated_length, h.elites_length]
  omega

theorem elites_subset (h : b.IsComplete G settings m population) : b.elites ⊆ population := by
  obtain ⟨rest, hperm, -⟩ := h.elites_best
  exact fun v hv => hperm.symm.subset (List.mem_append_left _ hv)

end Brood.IsComplete

namespace Evolution

variable {settings : EvolutionSettings} {population : List Variant}

/-- Whatever is drawn after a generation of the right size, the next one is made completely. -/
theorem brood_isComplete (hcheck : settings.check = .ok ()) (m : Mutator)
    (hsize : population.length = settings.populationSize) :
    Always G (brood settings m population) (Brood.IsComplete G settings m population) := by
  have hne : population ≠ [] := by
    intro hnone
    have hpos := (EvolutionSettings.pos_of_check hcheck).1
    rw [← hsize, hnone] at hpos
    cases hpos
  have helites : (elite population (min settings.selection.eliteCount settings.populationSize)).length =
      min settings.selection.eliteCount settings.populationSize := by
    rw [elite_length, hsize, Nat.min_assoc, Nat.min_self]
  refine Always.bind ((matingPool_isPool settings.selection hne).and (matingPool_subset settings.selection population))
    fun pool ⟨hpool, hsubset⟩ => ?_
  refine (births_isFrom hpool _).bind fun births ⟨hlength, hbirths⟩ => ?_
  refine (mutateAll_forall₂ m (births.map Birth.child)).bind fun mutated hmutated => .pure ?_
  rw [List.forall₂_map_left_iff] at hmutated
  exact {
    pool := hpool
    pool_subset := hsubset
    elites_length := helites
    elites_pairwise := elite_pairwise _ _
    elites_best := exists_perm_elite _ _
    births_length := by rw [hlength, helites]
    births := hbirths
    mutated := hmutated }

theorem breed_length (hcheck : settings.check = .ok ()) (m : Mutator)
    (hsize : population.length = settings.populationSize) (g : G) :
    (breed settings m population g).1.length = settings.populationSize := by
  rw [breed_fst]
  exact (brood_isComplete hcheck m hsize g).next_length

/-! ### Runs -/

variable {e : Evolution} {around : Surroundings} {t : Tree} {remaining : Nat} {p : Progress} {g : G}

theorem mutants_length (m : Mutator) (v : Variant) : ∀ count : Nat,
    Always G (mutants m v count) fun mutated => mutated.length = count
  | 0 => .pure rfl
  | count + 1 => by
    refine (Always.trivial _).bind fun mutant _ => ?_
    exact (mutants_length m v count).bind fun others hlength => .pure (congrArg Nat.succ hlength)

theorem judgedIn_length (e : Evolution) (around : Surroundings) (t : Tree) (p : Progress) :
    (e.judgedIn G around t p).length = p.population.length := by
  rw [judgedIn, Judge.judgeAll, List.length_map, List.length_zipIdx]

/-- Every generation of a run has the size that is set. -/
theorem Reaches.length_population (h : e.Reaches around t remaining p g) (hcheck : e.settings.check = .ok ()) :
    p.population.length = e.settings.populationSize := by
  induction h with
  | start =>
    have hpos := (EvolutionSettings.pos_of_check hcheck).1
    have hmutants : (e.firstMutants G around t).1.length = e.settings.populationSize - 1 :=
      mutants_length e.mutator (e.judgedSeed G around t) (e.settings.populationSize - 1) _
    show (e.firstMutants G around t).1.length + 1 = e.settings.populationSize
    omega
  | next h _ _ _ ih =>
    refine breed_length hcheck e.mutator ?_ _
    rw [judgedIn_length, ih]

/-- After a generation of the right size comes one of that size, whatever is drawn: as many elites as are
wanted and can be, as they are, after a mutated child of two parents for each of the other places.  So all
generations of a run are of that size. -/
theorem generations_keep_size (hcheck : settings.check = .ok ()) :
    (∀ (m : Mutator) (population : List Variant) (g : G),
      population.length = settings.populationSize → (∀ v ∈ population, v.score ≠ none) →
      let b := (brood settings m population g).1
      (breed settings m population g).1 = b.mutated ++ b.elites ∧
        (breed settings m population g).1.length = settings.populationSize ∧
        b.elites.length ≤ settings.populationSize ∧
        b.IsComplete G settings m population ∧
        (∀ v ∈ b.elites, v ∈ population ∧ v.score ≠ none) ∧
        ∀ g' : G, (selectTwo settings.selection b.pool g').1 ≠ none) ∧
    ∀ (e : Evolution) (around : Surroundings) (t : Tree), e.settings = settings →
      (∀ gen ∈ e.history G around t, gen.length = settings.populationSize) ∧
      ∀ remaining p (g : G), e.Reaches around t remaining p g → p.population.length = settings.populationSize := by
  constructor
  · intro m population g hsize hscored b
    have hcomplete : b.IsComplete G settings m population := brood_isComplete hcheck m hsize g
    refine ⟨breed_fst settings m population g, breed_length hcheck m hsize g, ?_, hcomplete, ?_, ?_⟩
    · rw [hcomplete.elites_length]
      exact Nat.min_le_right ..
    · intro v hv
      exact ⟨hcomplete.elites_subset hv, hscored v (hcomplete.elites_subset hv)⟩
    · intro g'
      obtain ⟨pair, hpair, -⟩ := hcomplete.pool.selectTwo_yields settings.selection g'
      rw [hpair]
      exact nofun
  · rintro e around t rfl
    constructor
    · intro gen hgen
      obtain ⟨remaining, p, g, hreaches, rfl⟩ := exists_reaches_of_mem_history hgen
      rw [judgedIn_length]
      exact hreaches.length_population hcheck
    · exact fun remaining p g hreaches => hreaches.length_population hcheck

theorem generations_keep_size_small : ∃ e t, prepare smallProgram smallSettings = .ok e ∧ e.seed.tree? = .ok t ∧
    (∀ g : Generator, (breed smallSettings e.mutator (List.replicate 4 (e.judgedSeed Generator {} t)) g).1.length = 4) ∧
    ∀ gen ∈ e.history Generator {} t, gen.length = 4 := by
  obtain ⟨e, he⟩ := exists_smallRun
  obtain ⟨hcheck, hsettings, -, t, ht⟩ := prepare_eq_ok he
  have hscored : ∀ v ∈ List.replicate 4 (e.judgedSeed Generator {} t), v.score ≠ none := by
    intro v hv
    rw [(List.mem_replicate.mp hv).2]
    exact nofun
  obtain ⟨hbred, hruns⟩ := generations_keep_size (G := Generator) (hsettings ▸ hcheck)
  exact ⟨e, t, he, ht, fun g => (hbred e.mutator _ g rfl hscored).2.1, (hruns e {} t hsettings).1⟩

end Evolution

end ProgramBreeding

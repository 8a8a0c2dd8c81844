import ProgramBreeding.Breeding.Crossover
import ProgramBreeding.Breeding.Mutation
import ProgramBreeding.Generator
import ProgramBreeding.Proofs.Rule.Derived
import ProgramBreeding.Proofs.Source.RoundTrip

/-!
# The texts of offspring

The text of a mutated or crossed program is a program again, unless it is nested too deep: the
one thing about a program that no single node knows.  That does happen, as rules and grafts
count no levels.

## Main definitions

* `Always` — what is true of a draw whatever the state of its source.
* `IsReadable` — texts that are programs, or nested too deep to be.
* `Tree.Rewrites`, `Mutator.mutateWith_rewrites` — mutators apply one rule after another.
* `Mutator.mutate_isReadable`, `crossover_isReadable` — the texts of offspring.
* `Mutator.not_mutate_reads`, `not_crossover_reads` — programs whose offspring are nested too
  deep.
-/

namespace ProgramBreeding

open Chance Source

/-! ### Draws -/

namespace Chance

variable {G α β : Type} {P : β → Prop} {Q : α → Prop}

/-- Whatever the state of the source, what is drawn has the property. -/
def Always (G : Type) (d : Draw G α) (Q : α → Prop) : Prop := ∀ g : G, Q (d g).1

theorem Always.pure {a : α} (h : Q a) : Always G (pure a : Draw G α) Q := fun _ => h

theorem Always.bind {d : Draw G α} {f : α → Draw G β} (hd : Always G d Q)
    (hf : ∀ a, Q a → Always G (f a) P) : Always G (d >>= f) P :=
  fun g => hf _ (hd g) _

theorem Always.trivial (d : Draw G α) : Always G d fun _ => True := fun _ => True.intro

end Chance

/-! ### Texts -/

/-- Texts that are programs, or would be if they were not nested too deep. -/
def IsReadable (text : String) : Prop :=
  (∃ body, parse text = .ok body) ∨ ∃ line column, parse text = .error ⟨line, column, .nestingTooDeep⟩

instance (text : String) : Decidable (∃ body, parse text = .ok body) :=
  match parse text with
  | .ok body => isTrue ⟨body, rfl⟩
  | .error _ => isFalse nofun

theorem Tree.IsWritable.isReadable {t : Tree} (h : t.IsWritable) : IsReadable (render t.body) :=
  (Block.IsWritable.readsAs h.nodes).imp_left fun ⟨body, hparse, _⟩ => ⟨body, hparse⟩

/-- A text that is a program has a tree that can be written down. -/
theorem treeOf_eq_ok {text : String} {body : Block Line} (h : parse text = .ok body) :
    ∃ t, treeOf text = .ok t ∧ t.IsWritable := by
  refine ⟨Tree.ofBlock 0 body, ?_, Tree.ofBlock_isWritable (fits_of_parse h).isWritable⟩
  rw [treeOf, h]
  rfl

variable {G : Type} [RandomSource G]

/-! ### Mutation -/

/-- A tree made of another one by a rule at a node where it matches. -/
def Tree.Rewrites (t t' : Tree) : Prop := ∃ rule label, label ∈ Rule.sites rule t ∧ rule.apply t label = .ok t'

theorem Tree.Rewrites.isWritable {t t' : Tree} (h : t.Rewrites t') (ht : t.IsWritable) : t'.IsWritable := by
  obtain ⟨rule, label, -, hresult⟩ := h
  exact rule.result?_isWritable ht (Rule.apply_eq_ok hresult)

namespace Mutator

theorem applySomewhere_rewrites (rule : Rule) (t : Tree) :
    Always G (applySomewhere rule t) fun result => ∀ t' ∈ result, t.Rewrites t' := by
  unfold applySomewhere
  dsimp only
  split
  · exact .pure nofun
  · refine (Always.trivial _).bind fun i _ => .pure fun t' hresult => ?_
    obtain ⟨site, hsite, happlied⟩ := Option.bind_eq_some_iff.mp hresult
    exact ⟨rule, site, List.mem_of_getElem? hsite, toOption_eq_some.mp happlied⟩

theorem attempt_rewrites (rate : Double) (rule : Rule) (t : Tree) :
    Always G (attempt rate rule t) fun result => ∀ t' ∈ result, t.Rewrites t' := by
  refine (Always.trivial _).bind fun lucky _ => ?_
  cases lucky with
  | true => exact applySomewhere_rewrites rule t
  | false => exact .pure nofun

/-- By induction on the rules: a tree that is changed at all is changed by one rule after another. -/
theorem mutateWith_rewrites (rate : Double) : ∀ (rules : List Rule) (t : Tree),
    Always G (mutateWith rate rules t) fun result => ∀ t' ∈ result, Relation.TransGen Tree.Rewrites t t'
  | [], _ => .pure nofun
  | rule :: rest, t => by
    refine (attempt_rewrites rate rule t).bind fun result hresult => ?_
    cases result with
    | none => exact mutateWith_rewrites rate rest t
    | some t₁ =>
      have ht₁ : t.Rewrites t₁ := hresult t₁ rfl
      refine (mutateWith_rewrites rate rest t₁).bind fun final hfinal => .pure fun t' heq => ?_
      cases heq
      cases final with
      | none => exact .single ht₁
      | some t₂ => exact .head ht₁ (hfinal t₂ rfl)

/-- By induction on the rules that were applied: each of them leaves a tree that can be written down. -/
theorem mutateWith_isWritable (rate : Double) (rules : List Rule) {t : Tree} (h : t.IsWritable) :
    Always G (mutateWith rate rules t) fun result => ∀ t' ∈ result, t'.IsWritable := by
  intro g t' hresult
  have hrewrites := mutateWith_rewrites rate rules t g t' hresult
  clear hresult
  induction hrewrites with
  | single hrewrites => exact hrewrites.isWritable h
  | tail _ hrewrites ih => exact hrewrites.isWritable ih

/-- The text of a mutated program is a program, or it is nested too deep. -/
theorem mutate_isReadable {text : String} {body : Block Line} (h : parse text = .ok body) (m : Mutator)
    (score : Option Score) :
    Always G (m.mutate ⟨text, score⟩) fun child => IsReadable child.source := by
  obtain ⟨t, ht, hwritable⟩ := treeOf_eq_ok h
  unfold mutate Variant.tree?
  rw [ht]
  refine (mutateWith_isWritable m.rate m.rules hwritable).bind fun result hresult => .pure ?_
  cases result with
  | none => exact .inl ⟨body, h⟩
  | some t' => exact (hresult t' rfl).isReadable

end Mutator

/-- A program with as many levels as there may be. -/
def brimful : String := String.ofList (List.replicate 98 '-') ++ "[1 - 2]\n"

/-- A mutation that folds constants whenever it can. -/
def alwaysFolds : Mutator := ⟨1.0, [.constantFold]⟩

theorem parse_brimful : ∃ body, parse brimful = .ok body := by decide +kernel

theorem Mutator.mutate_isReadable_brimful :
    IsReadable (alwaysFolds.mutate ⟨brimful, none⟩ (Generator.ofSeed 1)).1.source := by
  obtain ⟨body, h⟩ := parse_brimful
  exact Mutator.mutate_isReadable h alwaysFolds none (Generator.ofSeed 1)

/-- Folding gives a negative integer a level of its own, which there may be none left for. -/
theorem Mutator.not_mutate_reads : ¬ ∀ (m : Mutator) (text : String) (g : Generator),
    (∃ body, parse text = .ok body) →
      ∃ body, parse (m.mutate ⟨text, none⟩ g).1.source = .ok body := by
  intro h
  have hfailed :
      ¬ ∃ body, parse (alwaysFolds.mutate ⟨brimful, none⟩ (Generator.ofSeed 1)).1.source = .ok body := by
    decide +kernel
  exact hfailed (h alwaysFolds brimful (Generator.ofSeed 1) parse_brimful)

/-! ### Crossover -/

theorem graft_isWritable {t donor : Tree} (h : t.IsWritable) (hdonor : donor.IsWritable)
    (category : Category) :
    Always G (graft t donor category) fun result => ∀ t' ∈ result, t'.IsWritable := by
  refine (Always.trivial _).bind fun target _ => (Always.trivial _).bind fun replacement _ => ?_
  split
  · refine .pure fun t' hresult => ?_
    cases hreplaced : t.replace _ donor _ with
    | error e => rw [hreplaced] at hresult; cases hresult
    | ok t'' =>
      rw [hreplaced] at hresult
      cases hresult
      exact Tree.replace_isWritable h hdonor hreplaced
  · exact .pure nofun

theorem crossTrees_isWritable {t donor : Tree} (h : t.IsWritable) (hdonor : donor.IsWritable)
    (settings : CrossoverSettings) :
    Always G (crossTrees settings t donor) fun result => ∀ t' ∈ result, t'.IsWritable := by
  refine (Always.trivial _).bind fun category _ => ?_
  cases category with
  | none => exact .pure nofun
  | some category => exact graft_isWritable h hdonor category

/-- The text of a child of two programs is a program, or it is nested too deep. -/
theorem crossover_isReadable {text other : String} {body body' : Block Line}
    (h : parse text = .ok body) (h' : parse other = .ok body')
    (settings : CrossoverSettings) (score score' : Option Score) :
    Always G (crossover settings ⟨text, score⟩ ⟨other, score'⟩) fun child =>
      IsReadable child.source := by
  obtain ⟨t, ht, hwritable⟩ := treeOf_eq_ok h
  obtain ⟨donor, hdonor, hwritable'⟩ := treeOf_eq_ok h'
  unfold crossover Variant.tree?
  rw [ht, hdonor]
  refine (crossTrees_isWritable hwritable hwritable' settings).bind fun result hresult => .pure ?_
  cases result with
  | none => exact .inl ⟨body, h⟩
  | some t' => exact (hresult t' rfl).isReadable

/-- A program with an expression that takes one more level than the one it can be put for. -/
def nested : String := "x = [[0]]\n"

theorem parse_nested : ∃ body, parse nested = .ok body := by decide +kernel

theorem crossover_isReadable_brimful :
    IsReadable (crossover {} ⟨brimful, none⟩ ⟨nested, none⟩ (Generator.ofSeed 0)).1.source := by
  obtain ⟨body, h⟩ := parse_brimful
  obtain ⟨body', h'⟩ := parse_nested
  exact crossover_isReadable h h' {} none none (Generator.ofSeed 0)

/-- A graft may be nested deeper than what it is put in the place of. -/
theorem not_crossover_reads : ¬ ∀ (settings : CrossoverSettings) (text other : String) (g : Generator),
    (∃ body, parse text = .ok body) → (∃ body, parse other = .ok body) →
      ∃ body, parse (crossover settings ⟨text, none⟩ ⟨other, none⟩ g).1.source = .ok body := by
  intro h
  have hfailed : ¬ ∃ body,
      parse (crossover {} ⟨brimful, none⟩ ⟨nested, none⟩ (Generator.ofSeed 0)).1.source = .ok body := by
    decide +kernel
  exact hfailed (h {} brimful nested (Generator.ofSeed 0) parse_brimful parse_nested)

end ProgramBreeding

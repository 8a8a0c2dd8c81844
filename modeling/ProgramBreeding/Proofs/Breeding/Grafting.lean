import ProgramBreeding.Proofs.Breeding.Draws
import ProgramBreeding.Proofs.Breeding.Generations
import ProgramBreeding.Proofs.Tree.Replacement

/-!
# Children of two programs

A child of two programs that have a category of nodes in common is the first program with one node
replaced by a node of the second one.  The graft is never refused: nodes of one category fill the same
kind of place, and where one of them is assigned to, the other can be.

## Main definitions

* `Category.IsShared` — a category that two trees have nodes of, the module apart.
* `choose_yields`, `exchangedCategory_yields` — nothing is drawn from an empty list.
* `Tree.IsGraft` — a tree with a copy of a node in the place of one of the same category.
* `Tree.exists_graft` — nodes of one category can be exchanged.
* `crossover_grafts` — what the child of two candidates is.

## Design notes

Only what is assigned to asks for more than the right kind of place.  It is a name, an element or an
attribute in a tree that is well formed, and each of these is a category of its own.
-/

namespace ProgramBreeding

open Chance Source

variable {G : Type} [RandomSource G]

variable {t donor : Tree} {category : Category} {label : Label}

/-! ### Categories in common -/

theorem Category.mem_all (category : Category) : category ∈ Category.all := by cases category <;> decide

theorem Tree.mem_categories : category ∈ t.categories ↔
    category = .module ∨ ∃ node ∈ t.nodes, node.category = category := by
  have hcount : category ∈ t.categories ↔ category ∈ Category.module :: t.nodes.map Node.category := by
    simp [Tree.categories, Tree.census, Category.mem_all, List.count_eq_zero, -List.mem_cons]
  rw [hcount, List.mem_cons, List.mem_map]

/-- Both trees have nodes of the category, and it is not that of the module. -/
structure Category.IsShared (category : Category) (t donor : Tree) : Prop where
  ne_module : category ≠ .module
  own : ∃ node ∈ t.nodes, node.category = category
  offered : ∃ node ∈ donor.nodes, node.category = category

theorem mem_sharedCategories : category ∈ sharedCategories t donor ↔ category.IsShared t donor := by
  simp only [sharedCategories, List.mem_filter, Tree.mem_categories, Bool.and_eq_true, List.contains_iff_mem,
    bne_iff_ne]
  constructor
  · rintro ⟨hown, hoffered, hne⟩
    exact ⟨hne, hown.resolve_left hne, hoffered.resolve_left hne⟩
  · rintro ⟨hne, hown, hoffered⟩
    exact ⟨.inr hown, .inr hoffered, hne⟩

theorem Tree.mem_ofCategory (h : category ≠ .module) :
    label ∈ t.ofCategory category ↔ ∃ node ∈ t.nodes, node.category = category ∧ node.tag = label := by
  simp [Tree.ofCategory, h, and_assoc]

/-! ### Draws from lists -/

/-- Of a list that is not empty, a member is drawn. -/
theorem choose_yields {α : Type} {xs : List α} (h : xs ≠ []) : Yields G (choose xs) (· ∈ xs) := by
  unfold choose
  rw [if_neg (by simpa using h)]
  refine (always_below_lt (List.length_pos_iff.mpr h)).bind fun i hi => ?_
  rw [List.getElem?_eq_getElem hi]
  exact Yields.pure (List.getElem_mem hi)

/-- Whatever the preference for functions, the category that is drawn is one in common. -/
theorem exchangedCategory_yields (settings : CrossoverSettings) {shared : List Category} (h : shared ≠ []) :
    Yields G (exchangedCategory settings shared) (· ∈ shared) := by
  unfold exchangedCategory
  split
  · rename_i hprefer
    have hfunctions : .functionDef ∈ shared := by
      simpa using (Bool.and_eq_true_iff.mp hprefer).1
    refine (Always.trivial _).bind fun preferred _ => ?_
    cases preferred with
    | true => exact Yields.pure hfunctions
    | false => exact choose_yields h
  · exact choose_yields h

/-! ### Grafts -/

/-- The tree with a copy of a node of `donor` in the place of a node of the same category, and nothing
else changed. -/
def Tree.IsGraft (t donor t' : Tree) : Prop :=
  ∃ old ∈ t.nodes, ∃ new ∈ donor.nodes, ∃ copy, old.category = new.category ∧
    t.replace (t.handle old.tag) donor (donor.handle new.tag) = .ok t' ∧
      Node.IsCopy t.next t'.next new copy ∧ t.Swapped t' old copy

/-- What is assigned to is a name, an element or an attribute. -/
theorem Tree.WellFormed.isAssignable_of_assignsTo (h : t.WellFormed) {node : Node Label} (hnode : t.AssignsTo node) :
    node.IsAssignable := by
  obtain ⟨s, target, hs, htarget, rfl⟩ := hnode
  exact Expr.isAssignable_iff.mp (h.targets s target hs htarget)

/-- Of two nodes of one category, the one can be put in the place of the other. -/
theorem Tree.exists_graft (ht : t.WellFormed) (hdonor : donor.WellFormed) {old new : Node Label}
    (hold : old ∈ t.nodes) (hnew : new ∈ donor.nodes) (hcategory : old.category = new.category) :
    ∃ t', t.replace (t.handle old.tag) donor (donor.handle new.tag) = .ok t' ∧ t.IsGraft donor t' := by
  -- What stands where something is assigned to shows that its category can be assigned to.
  have hassignable : t.AssignsTo old → new.IsAssignable := by
    intro htarget
    have hassigned := ht.isAssignable_of_assignsTo htarget
    rwa [Node.IsAssignable, hcategory] at hassigned
  obtain ⟨t', copy, hresult, -, -, hcopy, hswapped, -⟩ :=
    (Tree.replace_exact ht hdonor _ _).replaced old new (.node hold) (.node hnew) (by rw [hcategory]) hassignable
  exact ⟨t', hresult, old, hold, new, hnew, copy, hcategory, hresult, hcopy, hswapped⟩

/-- A graft at nodes of a category in common is not refused. -/
theorem graft_yields (ht : t.WellFormed) (hdonor : donor.WellFormed) (h : category.IsShared t donor) :
    Yields G (graft t donor category) (t.IsGraft donor) := by
  have hdrawn {u : Tree} (hu : ∃ node ∈ u.nodes, node.category = category) :
      Yields G (choose (u.ofCategory category)) (· ∈ u.ofCategory category) := by
    obtain ⟨node, hnode, hcategory⟩ := hu
    exact choose_yields (List.ne_nil_of_mem ((Tree.mem_ofCategory h.ne_module).mpr ⟨node, hnode, hcategory, rfl⟩))
  refine (hdrawn h.own).bind fun target htarget => (hdrawn h.offered).bind fun replacement hreplacement => ?_
  obtain ⟨old, hold, rfl, rfl⟩ := (Tree.mem_ofCategory h.ne_module).mp htarget
  obtain ⟨new, hnew, hcategory, rfl⟩ := (Tree.mem_ofCategory h.ne_module).mp hreplacement
  obtain ⟨t', hresult, hgraft⟩ := Tree.exists_graft ht hdonor hold hnew hcategory.symm
  dsimp only
  rw [hresult]
  exact Yields.pure hgraft

/-- Two trees that have a category in common have a child. -/
theorem crossTrees_yields (settings : CrossoverSettings) (ht : t.WellFormed) (hdonor : donor.WellFormed)
    (h : ∃ category : Category, category.IsShared t donor) :
    Yields G (crossTrees settings t donor) (t.IsGraft donor) := by
  obtain ⟨category, hshared⟩ := h
  have hne : sharedCategories t donor ≠ [] := List.ne_nil_of_mem (mem_sharedCategories.mpr hshared)
  exact (exchangedCategory_yields settings hne).bind fun category hcategory =>
    graft_yields ht hdonor (mem_sharedCategories.mp hcategory)

/-- Two trees without a category in common have no child. -/
theorem crossTrees_eq_none (settings : CrossoverSettings)
    (h : ¬ ∃ category : Category, category.IsShared t donor) :
    Always G (crossTrees settings t donor) (· = none) := by
  have hnil : sharedCategories t donor = [] :=
    List.eq_nil_iff_forall_not_mem.mpr fun category hcategory => h ⟨category, mem_sharedCategories.mp hcategory⟩
  rw [crossTrees, hnil]
  exact .pure rfl

/-! ### Children -/

theorem crossover_of_trees {parent other : Variant} (ht : parent.tree? = .ok t) (hdonor : other.tree? = .ok donor)
    (settings : CrossoverSettings) (g : G) :
    (crossover settings parent other g).1 =
      ((crossTrees settings t donor g).1.map Variant.ofTree).getD parent.offspring := by
  unfold crossover
  rw [ht, hdonor]
  rfl

theorem crossover_of_not_trees {parent other : Variant}
    (h : ¬ ∃ t donor, parent.tree? = .ok t ∧ other.tree? = .ok donor) (settings : CrossoverSettings)
    (g : G) : (crossover settings parent other g).1 = parent.offspring := by
  unfold crossover
  cases ht : parent.tree? with
  | error e => rfl
  | ok t =>
    cases hdonor : other.tree? with
    | error e => rfl
    | ok donor => exact absurd ⟨t, donor, ht, hdonor⟩ h

/-- The child of two candidates is not judged.  If both are programs and have a category in common, the graft
is not refused, and the child is the first program with one node replaced by a node of the same category of
the second one; else it has the text of its first parent. -/
theorem crossover_grafts (settings : CrossoverSettings) (parent other : Variant) (g : G) :
    (crossover settings parent other g).1.score = none ∧
      (∀ t donor, parent.tree? = .ok t → other.tree? = .ok donor →
        (∃ category : Category, category.IsShared t donor) →
          ∃ t', (crossTrees settings t donor g).1 = some t' ∧ t.IsGraft donor t' ∧
            (crossover settings parent other g).1.source = render t'.body) ∧
      ((¬ ∃ t donor, parent.tree? = .ok t ∧ other.tree? = .ok donor ∧
        ∃ category : Category, category.IsShared t donor) →
          (crossover settings parent other g).1.source = parent.source) := by
  refine ⟨crossover_unjudged settings parent other g, fun t donor ht hdonor hshared => ?_, fun hnone => ?_⟩
  · have hwellFormed := (Tree.Derived.of_treeOf ht).wellFormed_descendants.1
    have hwellFormed' := (Tree.Derived.of_treeOf hdonor).wellFormed_descendants.1
    obtain ⟨t', hchild, hgraft⟩ := crossTrees_yields settings hwellFormed hwellFormed' hshared g
    refine ⟨t', hchild, hgraft, ?_⟩
    rw [crossover_of_trees ht hdonor, hchild]
    rfl
  · by_cases htrees : ∃ t donor, parent.tree? = .ok t ∧ other.tree? = .ok donor
    · obtain ⟨t, donor, ht, hdonor⟩ := htrees
      have hchild : (crossTrees settings t donor g).1 = none :=
        crossTrees_eq_none settings (fun hshared => hnone ⟨t, donor, ht, hdonor, hshared⟩) g
      rw [crossover_of_trees ht hdonor, hchild]
      rfl
    · rw [crossover_of_not_trees htrees]
      rfl

/-- A program that assigns to an element. -/
def elementAssignment : String := "xs[0] = f(1)\n"

/-- A program with names and constants, but without elements and calls. -/
def increment : String := "def g(n):\n    n += 2\n    return n\n"

theorem crossover_grafts_elementAssignment : ∃ t donor t', treeOf elementAssignment = .ok t ∧
    treeOf increment = .ok donor ∧ t.IsGraft donor t' ∧
      (crossover {} ⟨elementAssignment, none⟩ ⟨increment, none⟩ (Generator.ofSeed 1)).1.source = render t'.body := by
  have hshared : ∃ category, ((treeOf elementAssignment).toOption.bind fun t =>
      (treeOf increment).toOption.bind fun donor => (sharedCategories t donor).head?) = some category :=
    Option.isSome_iff_exists.mp (by decide +kernel)
  obtain ⟨category, hshared⟩ := hshared
  simp only [Option.bind_eq_some_iff, toOption_eq_some] at hshared
  obtain ⟨t, ht, donor, hdonor, hcategory⟩ := hshared
  have hmem := mem_sharedCategories.mp (List.mem_of_mem_head? hcategory)
  obtain ⟨-, hgrafted, -⟩ :=
    crossover_grafts {} ⟨elementAssignment, none⟩ ⟨increment, none⟩ (Generator.ofSeed 1)
  obtain ⟨t', -, hgraft, hsource⟩ := hgrafted t donor ht hdonor ⟨category, hmem⟩
  exact ⟨t, donor, t', ht, hdonor, hgraft, hsource⟩

end ProgramBreeding

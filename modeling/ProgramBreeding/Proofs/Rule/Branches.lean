import ProgramBreeding.Proofs.Rule.Derived

/-!
# Handles and branches

A handle names its lineage and a label, and all trees that are made of one tree are of its lineage.  What a
handle denotes in one of them it denotes in another one, or nothing, as long as its label was not given
away on both branches after they parted.  Each branch gives away its own labels: then one handle can denote
a constant on one of them and a name on the other.

## Main definitions

* `Tree.SameNode` — what is found in two trees is one and the same node of a tree that both are made of.
* `Tree.KeptIn.sameNode` — a label that is older than two branches denotes one node on both.
* `Tree.Derived.handles_agree` — handles on two branches.
* `Tree.Derived.not_handles_agree` — a label that is given away on both.
-/

namespace ProgramBreeding

open Source

/-- What is found in two trees is one and the same: the module of both, or two nodes that a node of the tree
that both are made of still is. -/
inductive Tree.SameNode (t : Tree) : Found → Found → Prop
  | module : SameNode t .module .module
  | node {old new₁ new₂ : Node Label} (hold : old ∈ t.nodes) (h₁ : old.Persists new₁) (h₂ : old.Persists new₂) :
    SameNode t (.node new₁) (.node new₂)

namespace Tree

variable {t t₁ t₂ : Tree} {handle : Handle} {found found₁ found₂ : Found}

theorem SameNode.category_eq (h : t.SameNode found₁ found₂) : found₂.category = found₁.category := by
  cases h with
  | module => rfl
  | node _ h₁ h₂ => exact h₂.category.trans h₁.category.symm

/-! ### What a handle denotes -/

theorem category_eq_ok {c : Category} :
    t.category handle = .ok c ↔ ∃ found, t.locate handle = .ok found ∧ found.category = c := by
  rw [category]
  cases t.locate handle <;> simp [Except.map]

/-- The labels of what handles denote have been given away. -/
theorem HasLabels.label_lt (h : t.HasLabels) (hfound : t.locate handle = .ok found) : handle.label < t.next := by
  cases found with
  | module =>
    rw [(locate_eq_module.mp hfound).2]
    exact h.inside _ (List.mem_cons_self ..)
  | node node =>
    obtain ⟨hmem, htag⟩ := locate_eq_ok hfound
    exact htag ▸ h.inside _ (List.mem_cons_of_mem _ (List.mem_map_of_mem hmem))

/-- A label that was given away before two branches part denotes one and the same node on both. -/
theorem KeptIn.sameNode (hlabels : t.HasLabels) (h₁ : t.KeptIn t₁) (h₂ : t.KeptIn t₂)
    (hfound₁ : t₁.locate handle = .ok found₁) (hfound₂ : t₂.locate handle = .ok found₂)
    (hlt : handle.label < t.next) : t.SameNode found₁ found₂ := by
  have hmodule : t₁.locate handle = .ok .module ↔ t₂.locate handle = .ok .module := by
    rw [locate_eq_module, locate_eq_module, h₁.lineage, h₁.root, h₂.lineage, h₂.root]
  cases found₁ with
  | module =>
    rw [hmodule.mp hfound₁] at hfound₂
    cases hfound₂
    exact .module
  | node new₁ =>
    cases found₂ with
    | module =>
      rw [hmodule.mpr hfound₂] at hfound₁
      cases hfound₁
    | node new₂ =>
      obtain ⟨old, hold, hpersists₁⟩ := h₁.locate hlabels hfound₁ hlt
      obtain ⟨old', hold', hpersists₂⟩ := h₂.locate hlabels hfound₂ hlt
      rw [hold] at hold'
      cases hold'
      exact .node (locate_eq_ok hold).1 hpersists₁ hpersists₂

/-! ### Handles on two branches -/

namespace Derived

/-- Two trees made of a third one, and a handle that denotes something in the first: its label was given away
before the branches parted, or not at all on the second one.  In the second tree the handle denotes the same
node, of the same category, or there is no node for it. -/
theorem handles_agree (h : t.Derived) (h₁ : Relation.ReflTransGen Tree.Edit t t₁)
    (h₂ : Relation.ReflTransGen Tree.Edit t t₂) (hfound₁ : t₁.locate handle = .ok found₁)
    (hlabel : handle.label < t.next ∨ t₂.next ≤ handle.label) :
    (∃ found₂, t₂.locate handle = .ok found₂ ∧ t.SameNode found₁ found₂ ∧ t₂.category handle = t₁.category handle) ∨
      t₂.category handle = .error (.nodeNotFound handle) := by
  cases hfound₂ : t₂.locate handle with
  | error e =>
    right
    rw [category, hfound₂, locate_eq_error hfound₂]
    rfl
  | ok found₂ =>
    left
    have hgiven : handle.label < t₂.next := (h.descendant h₂).hasLabels.label_lt hfound₂
    have hlt : handle.label < t.next := hlabel.resolve_right (Nat.not_le_of_lt hgiven)
    have hsame := KeptIn.sameNode h.hasLabels (h.keptIn_descendant h₁) (h.keptIn_descendant h₂) hfound₁ hfound₂ hlt
    refine ⟨found₂, rfl, hsame, ?_⟩
    rw [category_eq_ok.mpr ⟨_, hfound₁, rfl⟩, category_eq_ok.mpr ⟨_, hfound₂, rfl⟩, hsame.category_eq]

/-! ### A label that is given away twice -/

/-- A program with a name and a constant, each of which can stand in the place of the other. -/
def nameAndConstant : String := "x = y\nz = 1\n"

/-- The constant is put in the place of the name on one branch, the name in the place of the constant on the
other.  What is assigned to first stays on both, and the next free label is given to both copies. -/
theorem exists_branches : ∃ t t₁ t₂ found, treeOf nameAndConstant = .ok t ∧ t.Derived ∧ t.Edit t₁ ∧ t.Edit t₂ ∧
    t₁.locate (t.handle 0) = .ok found ∧ 0 < t.next ∧
    t₁.category (t.handle t.next) = .ok .constant ∧ t₂.category (t.handle t.next) = .ok .name := by
  have hrun : ((treeOf nameAndConstant).toOption.bind fun t =>
      (t.replace (t.handle 1) t (t.handle 4)).toOption.bind fun t₁ =>
        (t.replace (t.handle 4) t (t.handle 1)).toOption.bind fun t₂ =>
          (t₁.locate (t.handle 0)).toOption.bind fun found =>
            if 0 < t.next ∧ (t₁.category (t.handle t.next)).toOption = some .constant ∧
              (t₂.category (t.handle t.next)).toOption = some .name then some found else none).isSome = true := by
    decide +kernel
  obtain ⟨_, hrun⟩ := Option.isSome_iff_exists.mp hrun
  simp only [Option.bind_eq_some_iff, Option.ite_none_right_eq_some, toOption_eq_some] at hrun
  obtain ⟨t, ht, t₁, hresult₁, t₂, hresult₂, found, hfound, ⟨hpos, hconstant, hname⟩, -⟩ := hrun
  have hderived : t.Derived := .of_treeOf ht
  exact ⟨t, t₁, t₂, found, ht, hderived, .graft hderived hresult₁, .graft hderived hresult₂, hfound, hpos,
    hconstant, hname⟩

theorem handles_agree_nameAndConstant : ∃ t t₁ t₂ handle found₁, treeOf nameAndConstant = .ok t ∧
    t.Edit t₁ ∧ t.Edit t₂ ∧ t₁.locate handle = .ok found₁ ∧ handle.label < t.next ∧
      ((∃ found₂, t₂.locate handle = .ok found₂ ∧ t.SameNode found₁ found₂ ∧
        t₂.category handle = t₁.category handle) ∨ t₂.category handle = .error (.nodeNotFound handle)) := by
  obtain ⟨t, t₁, t₂, found, ht, hderived, hedit₁, hedit₂, hfound, hpos, -⟩ := exists_branches
  exact ⟨t, t₁, t₂, t.handle 0, found, ht, hedit₁, hedit₂, hfound, hpos,
    handles_agree hderived (.single hedit₁) (.single hedit₂) hfound (.inl hpos)⟩

/-- A handle can denote a constant on one branch and a name on another. -/
theorem not_handles_agree : ¬ ∀ (t t₁ t₂ : Tree) (handle : Handle) (c₁ c₂ : Category), t.Derived →
    Relation.ReflTransGen Tree.Edit t t₁ → Relation.ReflTransGen Tree.Edit t t₂ →
    t₁.category handle = .ok c₁ → t₂.category handle = .ok c₂ → c₂ = c₁ := by
  intro hall
  obtain ⟨t, t₁, t₂, -, -, hderived, hedit₁, hedit₂, -, -, hconstant, hname⟩ := exists_branches
  cases hall t t₁ t₂ _ _ _ hderived (.single hedit₁) (.single hedit₂) hconstant hname

end Derived

end Tree

end ProgramBreeding

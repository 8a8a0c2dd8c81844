import ProgramBreeding.Proofs.Tree.Place

/-!
# Grafts

A graft puts a copy of a node in the place of another one and leaves everything else as it is.  When it
fails it says why, and the first reason that there is is the one that it gives.

## Main definitions

* `Tree.Denotes` — what a handle denotes.
* `Node.IsCopy` — the same node with labels of its own.
* `Tree.Swapped` — two programs that differ in what stands in one place.
* `Tree.ReplacesExactly` — when a graft fails and what it leaves otherwise.
* `Tree.replace_exact` — `Tree.replace` is exact.
-/

namespace ProgramBreeding

variable {t donor : Tree} {target replacement handle : Handle}

/-- What a handle denotes in a tree: the module, or one of the nodes below it. -/
inductive Tree.Denotes (t : Tree) : Handle → Tree.Found → Prop
  | module : Denotes t (t.handle t.root) .module
  | node {node : Node Label} (h : node ∈ t.nodes) : Denotes t (t.handle node.tag) (.node node)

/-- The handle denotes something. -/
def Tree.Reaches (t : Tree) (handle : Handle) : Prop := ∃ found, t.Denotes handle found

/-- The node is what some assignment of the tree is made to. -/
def Tree.AssignsTo (t : Tree) (node : Node Label) : Prop :=
  ∃ s target, .stmt s ∈ t.nodes ∧ s.target? = some target ∧ node = .expr target

/-- Names, elements and attributes. -/
def Node.IsAssignable (node : Node Label) : Prop :=
  node.category = .name ∨ node.category = .subscript ∨ node.category = .attribute

/-- The same node with labels of its own, from the first free one on. -/
structure Node.IsCopy (next next' : Label) (node copy : Node Label) : Prop where
  same : copy.map (fun _ => ()) = node.map fun _ => ()
  fresh : Numbered next next' copy.labels

/-- Two trees with a node each in the same place, which are the same everywhere else. -/
inductive Tree.Swapped (t t' : Tree) : Node Label → Node Label → Prop
  | stmt (place : StmtPlace) {old new : Stmt Label} (h : t.body = place.fill old) (h' : t'.body = place.fill new) :
      Swapped t t' (.stmt old) (.stmt new)
  | expr (place : ExprPlace) {old new : Expr Label} (h : t.body = place.fill old) (h' : t'.body = place.fill new) :
      Swapped t t' (.expr old) (.expr new)

/-- When a graft fails, with the first reason that there is, and what it leaves otherwise. -/
structure Tree.ReplacesExactly (t donor : Tree) (target replacement : Handle) (result : Except TreeError Tree) :
    Prop where
  targetMissing : ¬ t.Reaches target → result = .error (.nodeNotFound target)
  replacementMissing : t.Reaches target → ¬ donor.Reaches replacement →
    result = .error (.nodeNotFound replacement)
  root : t.Denotes target .module → donor.Reaches replacement → result = .error .rootReplacement
  incompatible : ∀ old found, t.Denotes target (.node old) → donor.Denotes replacement found →
    old.category.slot ≠ found.category.slot →
      result = .error (.incompatible old.category.slot found.category.slot)
  notAssignable : ∀ old new, t.Denotes target (.node old) → donor.Denotes replacement (.node new) →
    old.category.slot = new.category.slot → t.AssignsTo old → ¬ new.IsAssignable →
      result = .error .notAssignable
  replaced : ∀ old new, t.Denotes target (.node old) → donor.Denotes replacement (.node new) →
    old.category.slot = new.category.slot → (t.AssignsTo old → new.IsAssignable) →
      ∃ t' copy, result = .ok t' ∧ t'.lineage = t.lineage ∧ t'.root = t.root ∧
        Node.IsCopy t.next t'.next new copy ∧ t.Swapped t' old copy ∧
          t'.size + old.nodes.length = t.size + new.nodes.length

/-! ### Handles -/

theorem Tree.HasLabels.locate_of_denotes (h : t.HasLabels) {found : Tree.Found} (hfound : t.Denotes handle found) :
    t.locate handle = .ok found := by
  cases hfound with
  | module => exact Tree.locate_eq_module.mpr ⟨rfl, rfl⟩
  | node hnode => exact h.locate_handle hnode

theorem Tree.denotes_of_locate {found : Tree.Found} (h : t.locate handle = .ok found) : t.Denotes handle found := by
  obtain ⟨lineage, label⟩ := handle
  obtain rfl : lineage = t.lineage := by
    refine Decidable.byContradiction fun hne => ?_
    rw [Tree.locate, if_neg hne] at h
    cases h
  cases found with
  | module =>
    obtain ⟨-, rfl⟩ := Tree.locate_eq_module.mp h
    exact .module
  | node node =>
    obtain ⟨hnode, rfl⟩ := Tree.locate_eq_ok h
    exact .node hnode

theorem Tree.locate_of_not_reaches (h : ¬ t.Reaches handle) : t.locate handle = .error (.nodeNotFound handle) := by
  cases hfound : t.locate handle with
  | ok found => exact absurd ⟨found, Tree.denotes_of_locate hfound⟩ h
  | error e => rw [Tree.locate_eq_error hfound]

theorem Tree.Denotes.mem {node : Node Label} (h : t.Denotes handle (.node node)) :
    node ∈ t.nodes ∧ handle.label = node.tag := by
  cases h with
  | node h => exact ⟨h, rfl⟩

/-! ### Copies and sizes -/

theorem Node.length_labels (node : Node Label) : node.labels.length = node.nodes.length := List.length_map ..

theorem Node.nodes_map {α β : Type} (f : α → β) (node : Node α) :
    (node.map f).nodes = node.nodes.map (Node.map f) := by
  cases node with
  | stmt s => exact s.nodes_map f
  | expr e => exact e.nodes_map f

/-- A copy has as many nodes. -/
theorem Node.IsCopy.length {next next' : Label} {node copy : Node Label} (h : Node.IsCopy next next' node copy) :
    copy.nodes.length = node.nodes.length := by
  have hlength := congrArg (fun n => n.nodes.length) h.same
  simpa only [Node.nodes_map, List.length_map] using hlength

/-- What stands elsewhere has the same size in both trees. -/
theorem Tree.Swapped.size {t' : Tree} {old new : Node Label} (h : t.Swapped t' old new) :
    t'.size + old.nodes.length = t.size + new.nodes.length := by
  have hsize (u : Tree) : u.size = ((Block.nodes u.body).map Node.tag).length + 1 := by
    rw [List.length_map]
    rfl
  rw [hsize, hsize, ← old.length_labels, ← new.length_labels]
  cases h with
  | @stmt place old new h h' =>
    have hold := (place.labels_fill old).length_eq
    have hnew := (place.labels_fill new).length_eq
    rw [List.length_append] at hold hnew
    rw [h, h', hold, hnew]
    show _ + old.labels.length = _ + new.labels.length
    omega
  | @expr place old new h h' =>
    have hold := (place.labels_fill old).length_eq
    have hnew := (place.labels_fill new).length_eq
    rw [List.length_append] at hold hnew
    rw [h, h', hold, hnew, Node.labels_expr, Node.labels_expr]
    omega

/-! ### Slots and targets -/

theorem Stmt.slot_category (s : Stmt Label) : s.category.slot = .statement := by cases s <;> rfl

theorem Expr.slot_category (e : Expr Label) : e.category.slot = .expression := by cases e <;> rfl

theorem Expr.isAssignable_iff {e : Expr Label} : e.isAssignable = true ↔ (Node.expr e).IsAssignable := by
  cases e <;> simp [Expr.isAssignable, Node.IsAssignable, Node.category, Expr.category]

/-- An expression is a target if a target has its label. -/
theorem Tree.HasLabels.isTarget_iff_assignsTo (h : t.HasLabels) {e : Expr Label} (he : .expr e ∈ t.nodes) :
    t.isTarget e.tag = true ↔ t.AssignsTo (.expr e) := by
  rw [Tree.isTarget_iff]
  constructor
  · rintro ⟨s, target, hs, htarget, htag⟩
    have hmem : .expr target ∈ t.nodes := Block.mem_nodes_trans hs (Stmt.target_mem htarget)
    exact ⟨s, target, hs, htarget, (List.inj_on_of_nodup_map h.nodup hmem he htag).symm⟩
  · rintro ⟨s, target, hs, htarget, heq⟩
    cases heq
    exact ⟨s, e, hs, htarget, rfl⟩

/-! ### Replacing a node -/

theorem Tree.replace_stmt_eq {old new : Stmt Label} (htarget : t.locate target = .ok (.node (.stmt old)))
    (hreplacement : donor.locate replacement = .ok (.node (.stmt new))) :
    t.replace target donor replacement = .ok { t with
      next := (new.number t.next).2
      body := Block.substituteStmt target.label (new.number t.next).1 t.body } := by
  rw [Tree.replace, htarget, hreplacement]
  rfl

theorem Tree.replace_expr_eq {old new : Expr Label} (htarget : t.locate target = .ok (.node (.expr old)))
    (hreplacement : donor.locate replacement = .ok (.node (.expr new))) :
    t.replace target donor replacement =
      if t.isTarget target.label && !new.isAssignable then .error .notAssignable
      else .ok { t with
        next := (new.number t.next).2
        body := Block.substituteExpr target.label (new.number t.next).1 t.body } := by
  rw [Tree.replace, htarget, hreplacement]
  rfl

/-- A copy of a statement that is put in the place of another one by its label. -/
theorem Tree.HasLabels.swapped_stmt (h : t.HasLabels) {old : Stmt Label} (hold : .stmt old ∈ t.nodes)
    (new : Stmt Label) (next : Label) :
    t.Swapped { t with next, body := Block.substituteStmt old.tag new t.body } (.stmt old) (.stmt new) := by
  obtain ⟨place, hbody, hplace⟩ := h.exists_stmtPlace hold
  refine .stmt place hbody ?_
  show Block.substituteStmt old.tag new t.body = _
  rw [hbody, StmtPlace.substituteStmt_fill hplace]

/-- A copy of an expression that is put in the place of another one by its label. -/
theorem Tree.HasLabels.swapped_expr (h : t.HasLabels) {old : Expr Label} (hold : .expr old ∈ t.nodes)
    (new : Expr Label) (next : Label) :
    t.Swapped { t with next, body := Block.substituteExpr old.tag new t.body } (.expr old) (.expr new) := by
  obtain ⟨place, hbody, hplace⟩ := h.exists_exprPlace hold
  refine .expr place hbody ?_
  show Block.substituteExpr old.tag new t.body = _
  rw [hbody, ExprPlace.substituteExpr_fill_tag hplace]

theorem Stmt.isCopy_number (s : Stmt Label) (next : Label) :
    Node.IsCopy next (s.number next).2 (.stmt s) (.stmt (s.number next).1) :=
  ⟨congrArg Node.stmt (s.number_shape next), s.number_numbered next⟩

theorem Expr.isCopy_number (e : Expr Label) (next : Label) :
    Node.IsCopy next (e.number next).2 (.expr e) (.expr (e.number next).1) :=
  ⟨congrArg Node.expr (e.number_shape next), e.number_nodes next⟩

/-- A graft fails for the first reason that there is, and without one it puts a copy of the replacement in the
place of the target and changes nothing else. -/
theorem Tree.replace_exact (ht : t.WellFormed) (hdonor : donor.WellFormed) (target replacement : Handle) :
    t.ReplacesExactly donor target replacement (t.replace target donor replacement) where
  targetMissing h := by
    rw [Tree.replace, Tree.locate_of_not_reaches h]
    rfl
  replacementMissing h h' := by
    obtain ⟨found, hfound⟩ := h
    rw [Tree.replace, ht.hasLabels.locate_of_denotes hfound, Tree.locate_of_not_reaches h']
    rfl
  root h h' := by
    obtain ⟨found, hfound⟩ := h'
    rw [Tree.replace, ht.hasLabels.locate_of_denotes h, hdonor.hasLabels.locate_of_denotes hfound]
    rfl
  incompatible old found hold hfound hslot := by
    rw [Tree.replace, ht.hasLabels.locate_of_denotes hold, hdonor.hasLabels.locate_of_denotes hfound]
    cases found with
    | module => cases old <;> rfl
    | node new =>
      cases old <;> cases new <;>
        first | rfl | simp [Found.category, Node.category, Stmt.slot_category, Expr.slot_category] at hslot
  notAssignable old new hold hnew hslot htarget hassignable := by
    obtain ⟨hmem, hlabel⟩ := hold.mem
    obtain ⟨_, e, -, -, rfl⟩ := id htarget
    cases new with
    | stmt new => simp [Node.category, Stmt.slot_category, Expr.slot_category] at hslot
    | expr new =>
      rw [Tree.replace_expr_eq (ht.hasLabels.locate_of_denotes hold) (hdonor.hasLabels.locate_of_denotes hnew),
        hlabel, Node.tag, (ht.hasLabels.isTarget_iff_assignsTo hmem).mpr htarget,
        Bool.not_eq_true _ |>.mp (mt Expr.isAssignable_iff.mp hassignable)]
      rfl
  replaced old new hold hnew hslot hassignable := by
    obtain ⟨hmem, hlabel⟩ := hold.mem
    have hlocate := ht.hasLabels.locate_of_denotes hold
    have hlocate' := hdonor.hasLabels.locate_of_denotes hnew
    cases old with
    | stmt old =>
      cases new with
      | expr new => simp [Node.category, Stmt.slot_category, Expr.slot_category] at hslot
      | stmt new =>
        have hcopy := new.isCopy_number t.next
        have hswapped := ht.hasLabels.swapped_stmt hmem (new.number t.next).1 (new.number t.next).2
        rw [Tree.replace_stmt_eq hlocate hlocate', hlabel]
        exact ⟨_, _, rfl, rfl, rfl, hcopy, hswapped, hcopy.length ▸ hswapped.size⟩
    | expr old =>
      cases new with
      | stmt new => simp [Node.category, Stmt.slot_category, Expr.slot_category] at hslot
      | expr new =>
        have hcopy := new.isCopy_number t.next
        have hswapped := ht.hasLabels.swapped_expr hmem (new.number t.next).1 (new.number t.next).2
        have hallowed : (t.isTarget old.tag && !new.isAssignable) = false := by
          rw [← ht.hasLabels.isTarget_iff_assignsTo hmem, ← Expr.isAssignable_iff] at hassignable
          cases htarget : t.isTarget old.tag with
          | false => rfl
          | true => rw [hassignable htarget]; rfl
        rw [Tree.replace_expr_eq hlocate hlocate', hlabel, Node.tag, if_neg (Bool.eq_false_iff.mp hallowed)]
        exact ⟨_, _, rfl, rfl, rfl, hcopy, hswapped, hcopy.length ▸ hswapped.size⟩

/-- The program `x = y[0]`. -/
def firstItem : Tree :=
  .ofBlock 0 [.assign () (.name () "x") (.subscript () (.name () "y") (.constant () (.int 0)))]

/-- In `x = y[0]`, a copy of `y[0]` in the place of `y`, which is a part of it. -/
theorem replace_exact_firstItem : ∃ t', firstItem.replace ⟨0, 1⟩ firstItem ⟨0, 3⟩ = .ok t' ∧ t'.size = 8 := by
  have hwellFormed : firstItem.WellFormed := Tree.ofBlock_wellFormed (by decide)
  have hexact := Tree.replace_exact hwellFormed hwellFormed ⟨0, 1⟩ ⟨0, 3⟩
  have hold : firstItem.Denotes ⟨0, 1⟩ (.node (.expr (.name 1 "y"))) :=
    @Tree.Denotes.node firstItem (.expr (.name 1 "y")) (.tail _ (.tail _ (.tail _ (.head _))))
  have hnew : firstItem.Denotes ⟨0, 3⟩ (.node (.expr (.subscript 3 (.name 1 "y") (.constant 2 (.int 0))))) :=
    @Tree.Denotes.node firstItem (.expr (.subscript 3 _ _)) (.tail _ (.tail _ (.head _)))
  obtain ⟨t', _, hresult, -, -, -, -, hsize⟩ := hexact.replaced _ _ hold hnew rfl fun _ => .inr (.inl rfl)
  exact ⟨t', hresult, Nat.add_right_cancel hsize⟩

end ProgramBreeding

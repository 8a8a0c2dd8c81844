import Mathlib.Data.List.Nodup
import ProgramBreeding.Proofs.Source.Writable
import ProgramBreeding.Proofs.Tree.Numbering
import ProgramBreeding.Proofs.Tree.Parts

/-!
# Trees that can be written down

An edit keeps a tree one that can be written down if what it puts in the place of other nodes
can be written down, and can be assigned to wherever it is.

## Main definitions

* `Tree.IsWritable` — trees whose nodes can be written down.
* `Node.Admissible` — what an edit may leave for a tree to stay so.
* `Tree.ofBlock_isWritable` — the first tree of a lineage.
* `Tree.IsWritable.refocus`, `Tree.IsWritable.substituteExpr` — the edits of rules.
* `Tree.replace_isWritable` — grafts.

## Design notes

That an assignment is made to something that can be assigned to is a matter of two nodes.
Labels tie them together: in a tree that can be written down, every node with the label of a
target can be assigned to.  So an edit that replaces other nodes leaves the targets alone.
-/

namespace ProgramBreeding

open Source

/-! ### Targets -/

/-- What a statement assigns to. -/
def Stmt.target? {α : Type} : Stmt α → Option (Expr α)
  | .assign _ target _ => some target
  | .augAssign _ target _ _ => some target
  | _ => none

theorem Stmt.target_mem {α : Type} {s : Stmt α} {target : Expr α}
    (htarget : s.target? = some target) : .expr target ∈ s.nodes := by
  cases s <;> cases htarget <;> exact .tail _ (List.mem_append_left _ target.self_mem_nodes)

/-- Only something that can be assigned to is a target. -/
theorem Stmt.IsWritable.target {α : Type} {s : Stmt α} {target : Expr α} (h : s.IsWritable)
    (htarget : s.target? = some target) : target.isAssignable = true := by
  cases s <;> cases htarget
  · exact h
  · exact h.1

/-- Some of the nodes is a statement whose target has the label. -/
def IsTargetIn (nodes : List (Node Label)) (label : Label) : Prop :=
  ∃ s target, .stmt s ∈ nodes ∧ s.target? = some target ∧ target.tag = label

theorem Tree.isTarget_iff {t : Tree} {label : Label} :
    t.isTarget label = true ↔ IsTargetIn t.nodes label := by
  unfold Tree.isTarget
  rw [List.any_eq_true]
  constructor
  · rintro ⟨node, hnode, h⟩
    split at h
    · exact ⟨_, _, hnode, rfl, of_decide_eq_true h⟩
    · exact ⟨_, _, hnode, rfl, of_decide_eq_true h⟩
    · cases h
  · rintro ⟨s, target, hs, htarget, rfl⟩
    refine ⟨_, hs, ?_⟩
    cases s <;> cases htarget <;> exact decide_eq_true rfl

/-! ### Trees that can be written down -/

/-- Trees whose nodes can be written down. -/
structure Tree.IsWritable (t : Tree) : Prop where
  below : ∀ node ∈ t.nodes, node.tag < t.next
  nodes : ∀ node ∈ t.nodes, node.IsWritable
  targets : ∀ e, .expr e ∈ t.nodes → t.isTarget e.tag = true → e.isAssignable = true

/-- What an edit may leave in the place of the nodes of a tree: expressions that stand for
old ones and new ones, and statements.  Of the new labels, only some belong to targets. -/
def Node.Admissible (t : Tree) (next : Label) (targets : Label → Prop) : Node Label → Prop
  | .expr e =>
    e.IsWritable ∧
      ((∃ old, .expr old ∈ t.nodes ∧ e.tag = old.tag ∧ e.isAssignable = old.isAssignable) ∨
        t.next ≤ e.tag ∧ e.tag < next ∧ (targets e.tag → e.isAssignable = true))
  | .stmt s =>
    s.IsWritable ∧ s.tag < next ∧ ∀ target, s.target? = some target →
      t.isTarget target.tag = true ∨ t.next ≤ target.tag ∧ targets target.tag

namespace Tree.IsWritable

variable {t t' : Tree} {next : Label} {targets : Label → Prop} {node : Node Label}

/-- A tree of admissible nodes can be written down. -/
theorem of_admissible (h : t.IsWritable) (targets : Label → Prop) (hnext : t.next ≤ t'.next)
    (hnodes : ∀ node ∈ t'.nodes, node.Admissible t t'.next targets) : t'.IsWritable where
  below node hnode := by
    have hadmissible := hnodes node hnode
    cases node with
    | stmt s => exact hadmissible.2.1
    | expr e =>
      obtain ⟨-, ⟨old, hold, htag, -⟩ | ⟨-, hlt, -⟩⟩ := hadmissible
      · exact Nat.lt_of_lt_of_le (show e.tag < t.next from htag ▸ h.below _ hold) hnext
      · exact hlt
  nodes node hnode := by
    have hadmissible := hnodes node hnode
    cases node with
    | stmt s => exact hadmissible.1
    | expr e => exact hadmissible.1
  targets e he htarget := by
    obtain ⟨s, target, hs, hstarget, htag⟩ := Tree.isTarget_iff.mp htarget
    have hold (htarget : t.isTarget target.tag = true) : target.tag < t.next := by
      obtain ⟨s, target', hs, hstarget, htag⟩ := Tree.isTarget_iff.mp htarget
      exact htag ▸ h.below _ (Block.mem_nodes_trans hs (Stmt.target_mem hstarget))
    obtain ⟨-, ⟨old, holdMem, holdTag, hassignable⟩ | ⟨hge, -, hnew⟩⟩ := hnodes _ he
    · have hlt : e.tag < t.next := holdTag ▸ h.below _ holdMem
      rcases (hnodes _ hs).2.2 target hstarget with htarget | ⟨hge, -⟩
      · rw [hassignable]
        exact h.targets old holdMem (by rw [← holdTag, ← htag]; exact htarget)
      · exact absurd hge (Nat.not_le.mpr (htag ▸ hlt))
    · rcases (hnodes _ hs).2.2 target hstarget with htarget | ⟨-, htarget⟩
      · exact absurd hge (Nat.not_le.mpr (htag ▸ hold htarget))
      · exact hnew (htag ▸ htarget)

theorem admissible (h : t.IsWritable) (hnext : t.next ≤ next) (hnode : node ∈ t.nodes) :
    node.Admissible t next targets := by
  cases node with
  | stmt s =>
    refine ⟨h.nodes _ hnode, Nat.lt_of_lt_of_le (h.below _ hnode) hnext, fun target htarget => ?_⟩
    exact .inl (Tree.isTarget_iff.mpr ⟨s, target, hnode, htarget, rfl⟩)
  | expr e => exact ⟨h.nodes _ hnode, .inl ⟨e, hnode, rfl, rfl⟩⟩

/-- Blocks have no say in what a statement itself has written down. -/
theorem admissible_of_kept (h : t.IsWritable) (hnext : t.next ≤ next) (hkept : node.Kept t.nodes) :
    node.Admissible t next targets := by
  cases hkept with
  | expr he => exact h.admissible hnext he
  | stmt hs hsame =>
    have hadmissible : Node.Admissible t next targets (.stmt _) := h.admissible hnext hs
    obtain ⟨hwritable, hlt, htargets⟩ := hadmissible
    cases hsame <;> exact ⟨hwritable, hlt, htargets⟩

end Tree.IsWritable

theorem Node.Admissible.mono {t : Tree} {next next' : Label} {targets : Label → Prop}
    {node : Node Label} (h : node.Admissible t next targets) (hle : next ≤ next') :
    node.Admissible t next' targets := by
  cases node with
  | stmt s => exact ⟨h.1, Nat.lt_of_lt_of_le h.2.1 hle, h.2.2⟩
  | expr e =>
    exact ⟨h.1, h.2.imp_right fun ⟨hge, hlt, htarget⟩ => ⟨hge, Nat.lt_of_lt_of_le hlt hle, htarget⟩⟩

/-- The block around a statement may be replaced by admissible statements. -/
theorem Tree.IsWritable.refocus {t : Tree} (h : t.IsWritable) (targets : Label → Prop)
    {focus : Focus} {next : Label} (hnext : t.next ≤ next) {block : Block Label}
    (hblock : ∀ node ∈ Block.nodes block, node.Admissible t next targets) :
    ({ t with next }.refocus focus block).IsWritable := by
  unfold Tree.refocus
  split
  · refine h.of_admissible targets (Nat.le_succ_of_le hnext) fun node hnode => ?_
    rcases Block.mem_replaceAround hnode with hnode | hkept
    · cases List.mem_singleton.mp hnode
      exact ⟨trivial, Nat.lt_succ_self next, nofun⟩
    · exact h.admissible_of_kept (Nat.le_succ_of_le hnext) hkept
  · refine h.of_admissible targets hnext fun node hnode => ?_
    rcases Block.mem_replaceAround hnode with hnode | hkept
    · exact hblock node hnode
    · exact h.admissible_of_kept hnext hkept

theorem Expr.isWritable_substituteBelow {label : Label} {new : Expr Label} (e : Expr Label) :
    (Expr.substituteBelow label new e).IsWritable ↔ e.IsWritable := by
  cases e <;> exact Iff.rfl

/-- Replacing a node of admissible expressions by another one leaves them admissible. -/
theorem Node.Admissible.substitute {t : Tree} {label next : Label} {targets : Label → Prop}
    {new e : Expr Label} (hnew : ∀ node ∈ new.nodes, node.Admissible t next targets)
    (he : ∀ node ∈ e.nodes, node.Admissible t next targets) :
    ∀ node ∈ (Expr.substitute label new e).nodes, node.Admissible t next targets := by
  intro node hnode
  obtain ⟨e', he', rfl⟩ := List.mem_map.mp hnode
  rcases Expr.mem_substitute he' with he' | ⟨old, hold, -, rfl⟩
  · exact hnew _ (List.mem_map_of_mem he')
  · obtain ⟨hwritable, hplace⟩ := he _ (List.mem_map_of_mem hold)
    refine ⟨(Expr.isWritable_substituteBelow old).mpr hwritable, ?_⟩
    rw [Expr.tag_substituteBelow, Expr.isAssignable_substituteBelow]
    exact hplace

/-- A node may be replaced by an expression of admissible nodes.  In the place of a target it
must be one that can be assigned to. -/
theorem Tree.IsWritable.substituteExpr {t : Tree} (h : t.IsWritable) (targets : Label → Prop)
    {label next : Label} (hnext : t.next ≤ next) {new : Expr Label}
    (hnew : ∀ node ∈ new.nodes, node.Admissible t next targets)
    (htarget : t.isTarget label = true → new.isAssignable = true ∧
      t.next ≤ new.tag ∧ targets new.tag) :
    Tree.IsWritable { t with next, body := Block.substituteExpr label new t.body } := by
  refine h.of_admissible targets hnext fun node hnode => ?_
  rcases Block.mem_mapExprs hnode with ⟨s, hs, rfl⟩ | ⟨e, he, hnode⟩
  · have hadmissible : Node.Admissible t next targets (.stmt s) := h.admissible hnext hs
    obtain ⟨hwritable, hlt, htargets⟩ := hadmissible
    have hassigned {target : Expr Label} (hstarget : s.target? = some target)
        (hassignable : target.isAssignable = true) :
        (Expr.substitute label new target).isAssignable = true ∧
          (t.isTarget (Expr.substitute label new target).tag = true ∨
            t.next ≤ (Expr.substitute label new target).tag ∧
              targets (Expr.substitute label new target).tag) := by
      have hlabel : t.isTarget target.tag = true :=
        Tree.isTarget_iff.mpr ⟨s, target, hs, hstarget, rfl⟩
      rw [Expr.substitute_eq]
      split
      · rename_i htag
        exact (htarget (htag ▸ hlabel)).imp_right .inr
      · rw [Expr.isAssignable_substituteBelow, Expr.tag_substituteBelow]
        exact ⟨hassignable, .inl hlabel⟩
    cases s with
    | assign l target value =>
      obtain ⟨hassignable, htargets⟩ := hassigned rfl hwritable
      exact ⟨hassignable, hlt, fun _ h => Option.some.inj h ▸ htargets⟩
    | augAssign l target op value =>
      obtain ⟨hassignable, htargets⟩ := hassigned rfl hwritable.1
      exact ⟨⟨hassignable, hwritable.2⟩, hlt, fun _ h => Option.some.inj h ▸ htargets⟩
    | functionDef => exact ⟨hwritable, hlt, nofun⟩
    | forLoop => exact ⟨hwritable, hlt, nofun⟩
    | _ => exact ⟨trivial, hlt, nofun⟩
  · exact Node.Admissible.substitute hnew (fun part hpart => h.admissible hnext (he part hpart))
      node hnode

/-- A statement may be replaced by one of admissible nodes. -/
theorem Tree.IsWritable.substituteStmt {t : Tree} (h : t.IsWritable) (targets : Label → Prop)
    {label next : Label} (hnext : t.next ≤ next) {new : Stmt Label}
    (hnew : ∀ node ∈ new.nodes, node.Admissible t next targets) :
    Tree.IsWritable { t with next, body := Block.substituteStmt label new t.body } := by
  refine h.of_admissible targets hnext fun node hnode => ?_
  rcases (Block.mem_substituteStmt hnode).kept with hnode | hkept
  · exact hnew node hnode
  · exact h.admissible_of_kept hnext hkept

/-! ### New nodes -/

section

variable {α β : Type}

theorem Node.isWritable_map {f : α → β} {node : Node α} :
    (node.map f).IsWritable ↔ node.IsWritable := by
  cases node with
  | stmt s =>
    cases s with
    | assign tag target =>
      show (target.map f).isAssignable = true ↔ target.isAssignable = true
      cases target <;> exact Iff.rfl
    | augAssign tag target op =>
      show (target.map f).isAssignable = true ∧ op ≠ .pow ↔ target.isAssignable = true ∧ op ≠ .pow
      cases target <;> exact Iff.rfl
    | _ => exact Iff.rfl
  | expr e => cases e <;> exact Iff.rfl

/-- Whether nodes can be written down does not depend on their tags. -/
theorem isWritable_of_shape {nodes : List (Node α)} {nodes' : List (Node β)}
    (hshape : nodes.map (Node.map fun _ => ()) = nodes'.map (Node.map fun _ => ()))
    (h : ∀ node ∈ nodes, node.IsWritable) : ∀ node ∈ nodes', node.IsWritable := by
  intro node' hnode'
  have hmem : node'.map (fun _ => ()) ∈ nodes.map (Node.map fun _ => ()) :=
    hshape ▸ List.mem_map_of_mem hnode'
  obtain ⟨node, hnode, heq⟩ := List.mem_map.mp hmem
  rw [← Node.isWritable_map, ← heq, Node.isWritable_map]
  exact h node hnode

end

/-- New nodes with labels of their own are admissible, with their own targets. -/
theorem Numbered.admissible {t : Tree} {next : Label} {nodes : List (Node Label)}
    (h : Numbered t.next next (nodes.map Node.tag)) (hwritable : ∀ node ∈ nodes, node.IsWritable)
    (hclosed : ∀ node ∈ nodes, ∀ inner ∈ node.nodes, inner ∈ nodes) :
    ∀ node ∈ nodes, node.Admissible t next (IsTargetIn nodes) := by
  intro node hnode
  obtain ⟨hge, hlt⟩ := h.range _ (List.mem_map_of_mem hnode)
  cases node with
  | stmt s =>
    refine ⟨hwritable _ hnode, hlt, fun target htarget => .inr ⟨?_, s, target, hnode, htarget, rfl⟩⟩
    have hmem : .expr target ∈ nodes := hclosed _ hnode _ (Stmt.target_mem htarget)
    exact (h.range _ (List.mem_map_of_mem hmem)).1
  | expr e =>
    refine ⟨hwritable _ hnode, .inr ⟨hge, hlt, ?_⟩⟩
    rintro ⟨s, target, hs, htarget, htag⟩
    have hmem : .expr target ∈ nodes := hclosed _ hs _ (Stmt.target_mem htarget)
    have heq : Node.expr target = .expr e := List.inj_on_of_nodup_map h.nodup hmem hnode htag
    cases heq
    exact (hwritable _ hs).target htarget

/-- The first tree of a lineage can be written down if its program can. -/
theorem Tree.ofBlock_isWritable {α : Type} {lineage : Nat} {body : Block α}
    (h : Block.IsWritable body) : (Tree.ofBlock lineage body).IsWritable := by
  have hempty : Tree.IsWritable ⟨lineage, 0, 0, []⟩ := ⟨nofun, nofun, nofun⟩
  have hnumbered := Block.number_numbered body 0
  have hwritable : ∀ node ∈ Block.nodes (Block.number body 0).1, node.IsWritable := by
    refine isWritable_of_shape ?_ h
    rw [← Block.nodes_map, ← Block.nodes_map, Block.number_map]
  refine hempty.of_admissible (IsTargetIn (Block.nodes (Block.number body 0).1)) (Nat.zero_le _)
    fun node hnode => ?_
  have hadmissible := hnumbered.admissible (t := ⟨lineage, 0, 0, []⟩) hwritable
    (fun _ hnode _ => Block.mem_nodes_trans hnode) node hnode
  exact hadmissible.mono (Nat.le_succ _)

/-! ### Grafts -/

theorem Tree.locate_eq_ok {t : Tree} {handle : Handle} {node : Node Label}
    (h : t.locate handle = .ok (.node node)) : node ∈ t.nodes ∧ node.tag = handle.label := by
  unfold Tree.locate at h
  split at h
  · rename_i found hfound
    cases h
    split at hfound
    · unfold Tree.find? at hfound
      split at hfound
      · cases hfound
      · obtain ⟨node', hnode', heq⟩ := Option.map_eq_some_iff.mp hfound
        cases heq
        exact ⟨List.mem_of_find?_eq_some hnode', by simpa using List.find?_some hnode'⟩
    · cases hfound
  · cases h

/-- A graft puts a copy of a statement in the place of one, or a copy of an expression in the
place of one; a target gives way to something that can be assigned to. -/
theorem Tree.replace_eq_ok {t donor t' : Tree} {target replacement : Handle}
    (h : t.replace target donor replacement = .ok t') :
    (∃ old new, .stmt old ∈ t.nodes ∧ old.tag = target.label ∧ .stmt new ∈ donor.nodes ∧
      t' = { t with
        next := (new.number t.next).2
        body := Block.substituteStmt target.label (new.number t.next).1 t.body }) ∨
    ∃ old new, .expr old ∈ t.nodes ∧ old.tag = target.label ∧ .expr new ∈ donor.nodes ∧
      (t.isTarget target.label = true → new.isAssignable = true) ∧
      t' = { t with
        next := (new.number t.next).2
        body := Block.substituteExpr target.label (new.number t.next).1 t.body } := by
  unfold Tree.replace at h
  cases hplace : t.locate target with
  | error e => rw [hplace] at h; cases h
  | ok place =>
    cases hfound : donor.locate replacement with
    | error e => rw [hplace, hfound] at h; cases h
    | ok found =>
      rw [hplace, hfound] at h
      cases place with
      | module => cases h
      | node place =>
        obtain ⟨hold, htag⟩ := Tree.locate_eq_ok hplace
        cases found with
        | module => cases place <;> cases h
        | node found =>
          obtain ⟨hnew, -⟩ := Tree.locate_eq_ok hfound
          cases place with
          | stmt old =>
            cases found with
            | expr new => cases h
            | stmt new =>
              cases h
              exact .inl ⟨old, new, hold, htag, hnew, rfl⟩
          | expr old =>
            cases found with
            | stmt new => cases h
            | expr new =>
              dsimp only [Bind.bind, Except.bind, pure, Except.pure] at h
              split at h
              · cases h
              · rename_i hchecked
                cases h
                refine .inr ⟨old, new, hold, htag, hnew, fun htarget => ?_, rfl⟩
                simpa [htarget] using hchecked

theorem Expr.isAssignable_number {α : Type} (e : Expr α) (a : Label) :
    (e.number a).1.isAssignable = e.isAssignable := by
  cases e <;> rfl

/-- Grafting a node of a tree that can be written down into another one leaves one. -/
theorem Tree.replace_isWritable {t donor t' : Tree} {target replacement : Handle}
    (h : t.IsWritable) (hdonor : donor.IsWritable)
    (hresult : t.replace target donor replacement = .ok t') : t'.IsWritable := by
  rcases Tree.replace_eq_ok hresult with
    ⟨-, new, -, -, hnew, rfl⟩ | ⟨-, new, -, -, hnew, hassignable, rfl⟩
  · have hnumbered := new.number_numbered t.next
    have hwritable : ∀ node ∈ (new.number t.next).1.nodes, node.IsWritable := by
      have hold : ∀ node ∈ new.nodes, node.IsWritable := fun node hnode =>
        hdonor.nodes _ (Block.mem_nodes_trans hnew hnode)
      refine isWritable_of_shape ?_ hold
      rw [← Stmt.nodes_map, ← Stmt.nodes_map, Stmt.number_shape]
    exact h.substituteStmt _ hnumbered.le
      (hnumbered.admissible hwritable fun _ hnode _ => Stmt.mem_nodes_trans hnode)
  · have hnumbered := new.number_nodes t.next
    have hwritable : ∀ node ∈ (new.number t.next).1.nodes, node.IsWritable := by
      have hold : ∀ node ∈ new.nodes, node.IsWritable := fun node hnode =>
        hdonor.nodes _ (Block.mem_nodes_trans hnew hnode)
      refine isWritable_of_shape ?_ hold
      rw [← Expr.nodes_map, ← Expr.nodes_map, Expr.number_shape]
    have hself := (new.number t.next).1.self_mem_nodes
    have hrange := hnumbered.range _ (List.mem_map_of_mem hself)
    have hnewAssignable (htarget : t.isTarget target.label = true) :
        (new.number t.next).1.isAssignable = true := by
      rw [Expr.isAssignable_number]
      exact hassignable htarget
    refine h.substituteExpr
      (fun l => t.isTarget target.label = true ∧ l = (new.number t.next).1.tag) hnumbered.le
      (fun node hnode => ?_) fun htarget => ⟨hnewAssignable htarget, hrange.1, htarget, rfl⟩
    obtain ⟨hge, hlt⟩ := hnumbered.range _ (List.mem_map_of_mem hnode)
    obtain ⟨e, -, rfl⟩ := List.mem_map.mp hnode
    refine ⟨hwritable _ hnode, .inr ⟨hge, hlt, fun ⟨htarget, htag⟩ => ?_⟩⟩
    -- Labels tell the topmost new node from those below it.
    have heq : Node.expr e = .expr (new.number t.next).1 :=
      List.inj_on_of_nodup_map hnumbered.nodup hnode hself htag
    cases heq
    exact hnewAssignable htarget

end ProgramBreeding

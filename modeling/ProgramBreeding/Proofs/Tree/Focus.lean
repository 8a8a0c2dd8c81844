import ProgramBreeding.Proofs.Tree.Place

/-!
# Finding the statement in a place

The search for a statement by its label ends where the statement stands, and replacing the block around it
fills the path to the block.  So the search for a statement next to it ends in the same block.

## Main definitions

* `Block.focusIn?_fill`, `Block.replaceAround_fill` — what is found and replaced at the end of a path.
* `StmtPlace.focus?_fill` — a statement is found in its place.
* `Tree.HasLabels.focus?_sibling`, `Tree.HasLabels.replaceAround_sibling` — the same block from another of its
  statements.
-/

namespace ProgramBreeding

variable {label : Label} {required : Bool} {block new : Block Label}

/-! ### Statements without the label -/

/-- Only a statement with the label below it is searched with success. -/
theorem Stmt.focus?_eq_none {s : Stmt Label} (h : label ∉ s.labels) : s.focus? label = none := by
  cases hfocus : s.focus? label with
  | none => rfl
  | some focus =>
    obtain ⟨rfl, hnodes⟩ := Stmt.mem_of_focus? hfocus
    have hmem := hnodes (.stmt focus.stmt) (Block.mem_nodes_of_mem (by simp [Focus.block]) focus.stmt.self_mem_nodes)
    exact absurd (List.mem_map_of_mem (f := Node.tag) hmem) h

theorem Block.focusIn?_eq_none {body : Block Label} (h : label ∉ (Block.nodes body).map Node.tag) :
    Block.focusIn? label required body body = none := by
  cases hfocus : Block.focusIn? label required body body with
  | none => rfl
  | some focus =>
    obtain ⟨rfl, hnodes⟩ := Block.mem_of_focusIn? hfocus
    have hmem := (hnodes (.stmt focus.stmt)
      (Block.mem_nodes_of_mem (by simp [Focus.block]) focus.stmt.self_mem_nodes)).elim id id
    exact absurd (List.mem_map_of_mem (f := Node.tag) hmem) h

/-- A statement is not found below itself. -/
theorem Stmt.focus?_tag_eq_none {s : Stmt Label} (h : s.labels.Nodup) : s.focus? s.tag = none := by
  cases s with
  | functionDef l name params body => exact Block.focusIn?_eq_none (List.nodup_cons.mp h).1
  | forLoop l var source body | whileLoop l source body =>
    refine Block.focusIn?_eq_none fun hmem => (List.nodup_cons.mp h).1 ?_
    rw [List.map_append]
    exact List.mem_append_right _ hmem
  | ifElse l test body orelse =>
    have hnot : l ∉ (test.nodes ++ Block.nodes body ++ Block.nodes orelse).map Node.tag := (List.nodup_cons.mp h).1
    simp only [List.map_append, List.mem_append, not_or] at hnot
    rw [Stmt.tag, Stmt.focus?, Block.focusIn?_eq_none hnot.1.2, Block.focusIn?_eq_none hnot.2]
    rfl
  | ret | assign | augAssign | expr | pass | brk | cont => rfl

theorem Block.focusIn?_append {before rest : Block Label} (h : ∀ s ∈ before, s.focus? label = none) :
    Block.focusIn? label required block (before ++ rest) = Block.focusIn? label required block rest := by
  induction before with
  | nil => rfl
  | cons s before ih =>
    rw [List.cons_append, Block.focusIn?, h s (List.mem_cons_self ..), Option.none_or]
    exact ih fun s' hs' => h s' (List.mem_cons_of_mem _ hs')

theorem Block.cut?_append {s : Stmt Label} {after : Block Label} : ∀ {before found : Block Label},
    (∀ s' ∈ before, s'.tag ≠ s.tag) → Block.cut? s.tag found (before ++ s :: after) = some (found ++ before, s, after)
  | [], found, _ => by rw [List.nil_append, Block.cut?, if_pos rfl, List.append_nil]
  | s' :: before, found, h => by
    rw [List.cons_append, Block.cut?, if_neg (h s' (List.mem_cons_self ..)),
      Block.cut?_append fun s'' hs'' => h s'' (List.mem_cons_of_mem _ hs''), List.append_assoc]
    rfl

/-! ### The end of a path -/

/-- By induction on the path: the search goes past the statements beside it. -/
theorem Block.focusIn?_fill {focus : Focus} : ∀ (path : Path) (required : Bool), label ∉ path.labels →
    (∀ required, Block.focusIn? label required block block = some { focus with required }) →
      Block.focusIn? label required (path.fill block) (path.fill block) =
        some { focus with required := path.requiredOr required }
  | [], required, _, h => h required
  | ⟨before, hole, after⟩ :: path, required, hlabel, h => by
    simp only [Path.labels, List.flatMap_cons, Level.labels, Level.nodes, List.mem_append, List.mem_cons,
      List.map_append, not_or] at hlabel
    obtain ⟨⟨-, ⟨hbefore, hbeside⟩, -⟩, hpath⟩ := hlabel
    have hinner := Block.focusIn?_fill path hole.isRequired hpath h
    have hhole : (hole.fill (Path.fill path block)).focus? label =
        some { focus with required := Path.requiredOr hole.isRequired path } := by
      cases hole with
      | elseBlock l test body =>
        rw [Hole.nodes, List.map_append, List.mem_append, not_or] at hbeside
        rw [Hole.fill, Stmt.focus?, Block.focusIn?_eq_none hbeside.2, Option.none_or]
        exact hinner
      | thenBlock => rw [Hole.fill, Stmt.focus?, show Block.focusIn? label true _ _ = _ from hinner, Option.some_or]
      | functionDef | forLoop | whileLoop => exact hinner
    rw [Path.fill, Level.fill, Block.focusIn?_append, Block.focusIn?, hhole, Option.some_or]
    · rfl
    · exact fun s hs => Stmt.focus?_eq_none fun hmem => hbefore
        (Block.labels_eq before ▸ List.mem_flatMap.mpr ⟨.stmt s, List.mem_map_of_mem hs, hmem⟩)

theorem Block.replaceBelow_append (body rest : Block Label) :
    Block.replaceBelow label new (body ++ rest) =
      Block.replaceBelow label new body ++ Block.replaceBelow label new rest := by
  induction body with
  | nil => rfl
  | cons s body ih => rw [List.cons_append, Block.replaceBelow, ih, Block.replaceBelow, List.cons_append]

/-- By induction on the path: the block at its end is replaced and nothing else. -/
theorem Block.replaceAround_fill (hblock : Block.holds label block = true) : ∀ {path : Path}, label ∉ path.labels →
    Block.replaceAround label new (path.fill block) = path.fill new
  | [], _ => if_pos hblock
  | ⟨before, hole, after⟩ :: path, hlabel => by
    have hholds : Block.holds label (Level.fill ⟨before, hole, after⟩ (Path.fill path block)) = false :=
      Level.holds_eq_false fun hmem => hlabel (List.mem_append_left _ hmem)
    simp only [Path.labels, List.flatMap_cons, Level.labels, Level.nodes, List.mem_append, List.mem_cons,
      List.map_append, not_or] at hlabel
    obtain ⟨⟨-, ⟨hbefore, hbeside⟩, hafter⟩, hpath⟩ := hlabel
    have hinner := Block.replaceAround_fill hblock hpath
    have hhole : (hole.fill (Path.fill path block)).replaceAround label new = hole.fill (Path.fill path new) := by
      cases hole with
      | elseBlock l test body =>
        rw [Hole.nodes, List.map_append, List.mem_append, not_or] at hbeside
        rw [Hole.fill, Stmt.replaceAround, Block.replaceIn_eq hbeside.2 (Block.replaceBelow_of_notMem hbeside.2)]
        exact congrArg (Stmt.ifElse l test body) hinner
      | thenBlock l test orelse =>
        rw [Hole.nodes, List.map_append, List.mem_append, not_or] at hbeside
        rw [Hole.fill, Stmt.replaceAround, Block.replaceIn_eq hbeside.2 (Block.replaceBelow_of_notMem hbeside.2)]
        exact congrArg (Stmt.ifElse l test · orelse) hinner
      | functionDef l name params => exact congrArg (Stmt.functionDef l name params) hinner
      | forLoop l var source => exact congrArg (Stmt.forLoop l var source) hinner
      | whileLoop l test => exact congrArg (Stmt.whileLoop l test) hinner
    rw [Block.replaceAround, Path.fill, hholds, Level.fill, Block.replaceBelow_append, Block.replaceBelow, hhole,
      Block.replaceBelow_of_notMem hbefore, Block.replaceBelow_of_notMem hafter]
    rfl

/-- A statement is found in its place. -/
theorem StmtPlace.focus?_fill {place : StmtPlace} {s : Stmt Label}
    (h : ((Block.nodes (place.fill s)).map Node.tag).Nodup) :
    Block.focus? s.tag (place.fill s) = some ⟨place.before, s, place.after, place.path.requiredOr false⟩ := by
  have hs : s.labels.Nodup := (List.nodup_append.mp ((place.labels_fill s).nodup h)).2.1
  have hlabel : s.tag ∉ place.labels := place.tag_notMem_labels h
  simp only [labels, Block.nodes_append, List.map_append, List.mem_append, not_or] at hlabel
  obtain ⟨hpath, hbefore, hafter⟩ := hlabel
  have hbeside {body : Block Label} (hbody : s.tag ∉ (Block.nodes body).map Node.tag) {s' : Stmt Label}
      (hs' : s' ∈ body) : s.tag ∉ s'.labels := fun hmem => by
    obtain ⟨node, hnode, htag⟩ := List.mem_map.mp hmem
    exact hbody (htag ▸ List.mem_map_of_mem (f := Node.tag) (Block.mem_nodes_of_mem hs' hnode))
  suffices hsearch : ∀ required, Block.focusIn? s.tag required (place.before ++ s :: place.after)
      (place.before ++ s :: place.after) = some ⟨place.before, s, place.after, required⟩ from
    @Block.focusIn?_fill _ _ ⟨place.before, s, place.after, false⟩ place.path false hpath hsearch
  intro required
  have hall : ∀ s' ∈ place.before ++ s :: place.after, s'.focus? s.tag = none := fun s' hs' => by
    rcases List.mem_append.mp hs' with hs' | hs'
    · exact Stmt.focus?_eq_none (hbeside hbefore hs')
    · rcases List.mem_cons.mp hs' with rfl | hs'
      · exact Stmt.focus?_tag_eq_none hs
      · exact Stmt.focus?_eq_none (hbeside hafter hs')
  have hcut : Block.cut? s.tag [] (place.before ++ s :: place.after) = some (place.before, s, place.after) :=
    Block.cut?_append fun s' hs' htag => hbeside hbefore hs' (htag ▸ List.mem_map_of_mem s'.self_mem_nodes)
  have hsearch := @Block.focusIn?_append s.tag required (place.before ++ s :: place.after) _ [] hall
  rw [List.append_nil] at hsearch
  rw [hsearch, Block.focusIn?, hcut]
  rfl

/-! ### The same block from another statement -/

namespace Tree.HasLabels

variable {t : Tree} {focus : Focus} {before after : Block Label} {s : Stmt Label}

/-- The statements of the block that a focus is on are found in the same block. -/
theorem focus?_sibling (h : t.HasLabels) (hfocus : Block.focus? label t.body = some focus)
    (hblock : focus.block = before ++ s :: after) :
    Block.focus? s.tag t.body = some ⟨before, s, after, focus.required⟩ := by
  obtain ⟨path, hbody, hrequired, -⟩ := Block.exists_path h.nodup hfocus
  rw [hblock] at hbody
  have hplace := @StmtPlace.focus?_fill ⟨path, before, after⟩ s
    (show ((Block.nodes (path.fill (before ++ s :: after))).map Node.tag).Nodup from hbody ▸ h.nodup)
  rw [hrequired, hbody]
  exact hplace

/-- Replacing the block from there. -/
theorem replaceAround_sibling (h : t.HasLabels) (hfocus : Block.focus? label t.body = some focus)
    (hblock : focus.block = before ++ s :: after) (new : Block Label) :
    Block.replaceAround s.tag new t.body = Block.replaceAround focus.stmt.tag new t.body := by
  obtain ⟨path, hbody, -, hnew⟩ := Block.exists_path h.nodup hfocus
  rw [hnew]
  rw [hblock] at hbody
  have hnodup : ((Block.nodes (path.fill (before ++ s :: after))).map Node.tag).Nodup := hbody ▸ h.nodup
  have hpath : s.tag ∉ path.labels := StmtPlace.tag_notMem_path ⟨path, before, after⟩ hnodup
  rw [hbody, Block.replaceAround_fill (by simp [Block.holds]) hpath]

end Tree.HasLabels

end ProgramBreeding

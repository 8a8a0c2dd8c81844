import ProgramBreeding.Proofs.Tree.WellFormed

/-!
# Where nodes stand

## Main definitions

* `Tree.mem_stmtsWhere`, `Tree.mem_exprsWhere` — the nodes with a property.
* `Tree.HasLabels.exists_focus` — a statement is found with the statements around it.
-/

namespace ProgramBreeding

namespace Tree

variable {t : Tree} {label : Label}

theorem mem_stmtsWhere {p : Stmt Label → Bool} :
    label ∈ t.stmtsWhere p ↔ ∃ s, .stmt s ∈ t.nodes ∧ p s = true ∧ s.tag = label := by
  unfold stmtsWhere
  rw [List.mem_filterMap]
  constructor
  · rintro ⟨node, hnode, heq⟩
    cases node with
    | expr e => cases heq
    | stmt s =>
      obtain ⟨hp, htag⟩ := Option.ite_none_right_eq_some.mp heq
      exact ⟨s, hnode, hp, Option.some.inj htag⟩
  · rintro ⟨s, hs, hp, rfl⟩
    exact ⟨.stmt s, hs, if_pos hp⟩

theorem mem_exprsWhere {p : Expr Label → Bool} :
    label ∈ t.exprsWhere p ↔ ∃ e, .expr e ∈ t.nodes ∧ p e = true ∧ e.tag = label := by
  unfold exprsWhere
  rw [List.mem_filterMap]
  constructor
  · rintro ⟨node, hnode, heq⟩
    cases node with
    | stmt s => cases heq
    | expr e =>
      obtain ⟨hp, htag⟩ := Option.ite_none_right_eq_some.mp heq
      exact ⟨e, hnode, hp, Option.some.inj htag⟩
  · rintro ⟨e, he, hp, rfl⟩
    exact ⟨.expr e, he, if_pos hp⟩

end Tree

/-! ### Statements -/

section

variable {label : Label}

theorem Block.isSome_cut? : ∀ {body before : Block Label}, (∃ s ∈ body, s.tag = label) →
    (Block.cut? label before body).isSome = true
  | [], _, ⟨_, hs, _⟩ => nomatch hs
  | s :: rest, before, ⟨s', hs', htag⟩ => by
    unfold Block.cut?
    split
    · rfl
    · rename_i hne
      rcases List.mem_cons.mp hs' with rfl | hs'
      · exact absurd htag hne
      · exact Block.isSome_cut? ⟨s', hs', htag⟩

/-- A statement of a block is found, and so is one below the statements that are looked through. -/
theorem Block.isSome_focusIn? {required : Bool} {block : Block Label} : ∀ {rest : List (Stmt Label)},
    (∃ s ∈ block, s.tag = label) ∨ (∃ s ∈ rest, (s.focus? label).isSome = true) →
      (Block.focusIn? label required block rest).isSome = true
  | [], h => by
    rw [Block.focusIn?, Option.isSome_map]
    exact Block.isSome_cut? (h.resolve_right nofun)
  | s :: rest, h => by
    rw [Block.focusIn?, Option.isSome_or, Bool.or_eq_true]
    rcases h with h | ⟨s', hs', h⟩
    · exact .inr (Block.isSome_focusIn? (.inl h))
    · rcases List.mem_cons.mp hs' with rfl | hs'
      · exact .inl h
      · exact .inr (Block.isSome_focusIn? (.inr ⟨s', hs', h⟩))

theorem Expr.stmt_notMem_nodes {s : Stmt Label} (e : Expr Label) : .stmt s ∉ e.nodes := by
  simp [Expr.nodes]

mutual

/-- A statement below another one is found in its blocks. -/
theorem Stmt.isSome_focus? {s' : Stmt Label} : ∀ {s : Stmt Label}, .stmt s' ∈ s.nodes →
    s' = s ∨ (s.focus? s'.tag).isSome = true
  | .functionDef _ _ _ body, h => by
    rcases List.mem_cons.mp h with h | h
    · exact .inl (Node.stmt.inj h)
    · exact .inr (Block.isSome_focusIn? (Block.exists_focus? h))
  | .forLoop _ _ source body, h | .whileLoop _ source body, h => by
    rcases List.mem_cons.mp h with h | h
    · exact .inl (Node.stmt.inj h)
    · have hbody := (List.mem_append.mp h).resolve_left source.stmt_notMem_nodes
      exact .inr (Block.isSome_focusIn? (Block.exists_focus? hbody))
  | .ifElse _ test body orelse, h => by
    rcases List.mem_cons.mp h with h | h
    · exact .inl (Node.stmt.inj h)
    · refine .inr ?_
      rw [Stmt.focus?, Option.isSome_or, Bool.or_eq_true]
      rcases List.mem_append.mp h with h | h
      · have hbody := (List.mem_append.mp h).resolve_left test.stmt_notMem_nodes
        exact .inl (Block.isSome_focusIn? (Block.exists_focus? hbody))
      · exact .inr (Block.isSome_focusIn? (Block.exists_focus? h))
  | .ret _ value, h => .inl (by cases value <;> simpa [Stmt.nodes, Expr.stmt_notMem_nodes] using h)
  | .assign .., h | .augAssign .., h | .expr .., h | .pass _, h | .brk _, h | .cont _, h =>
    .inl (by simpa [Stmt.nodes, Expr.stmt_notMem_nodes] using h)

theorem Block.exists_focus? {s' : Stmt Label} : ∀ {body : List (Stmt Label)}, .stmt s' ∈ Block.nodes body →
    (∃ s ∈ body, s.tag = s'.tag) ∨ ∃ s ∈ body, (s.focus? s'.tag).isSome = true
  | [], h => nomatch h
  | s :: rest, h => by
    rcases List.mem_append.mp h with h | h
    · rcases Stmt.isSome_focus? h with rfl | h
      · exact .inl ⟨s', List.mem_cons_self .., rfl⟩
      · exact .inr ⟨s, List.mem_cons_self .., h⟩
    · rcases Block.exists_focus? h with ⟨s₁, hs₁, h⟩ | ⟨s₁, hs₁, h⟩
      · exact .inl ⟨s₁, List.mem_cons_of_mem _ hs₁, h⟩
      · exact .inr ⟨s₁, List.mem_cons_of_mem _ hs₁, h⟩

end

end

/-- A statement is found by its label, with the statements around it. -/
theorem Tree.HasLabels.exists_focus {t : Tree} (h : t.HasLabels) {s : Stmt Label} (hs : .stmt s ∈ t.nodes) :
    ∃ focus, Block.focus? s.tag t.body = some focus ∧ focus.stmt = s := by
  have hfound : (Block.focus? s.tag t.body).isSome = true := Block.isSome_focusIn? (Block.exists_focus? hs)
  obtain ⟨focus, hfocus⟩ := Option.isSome_iff_exists.mp hfound
  obtain ⟨htag, hnodes⟩ := Block.mem_of_focus? hfocus
  have hmem : .stmt focus.stmt ∈ t.nodes := hnodes _ (by
    simp [Focus.block, Block.nodes_append, Block.nodes, Stmt.self_mem_nodes])
  have heq := List.inj_on_of_nodup_map h.nodup hmem hs htag
  exact ⟨focus, hfocus, Node.stmt.inj heq⟩

end ProgramBreeding

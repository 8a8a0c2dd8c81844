import ProgramBreeding.Tree.Edit

/-!
# The nodes of an edited program

Every node of an edited program is new, or it is what a node of the program has become.
What the edits do not replace keeps its own data, and only what is below it may differ.

## Main definitions

* `Expr.Becomes`, `Expr.mem_substitute` — the parts of an expression after one is replaced.
* `Block.mem_mapExprs` — the nodes of a program whose expressions are changed.
* `Node.Respliced`, `Block.mem_substituteStmt` — the nodes after a statement is replaced.
* `Block.mem_replaceAround` — the nodes after the block around a statement is replaced.
* `Block.mem_of_focus?` — a statement and those around it are nodes of the program.
-/

namespace ProgramBreeding

variable {label : Label}

/-! ### Expressions replaced -/

section

variable {new e' : Expr Label} {old old' : List (Expr Label)}

/-- An expression with a node below it replaced. -/
def Expr.substituteBelow (label : Label) (new : Expr Label) : Expr Label → Expr Label
  | .name l id => .name l id
  | .constant l value => .constant l value
  | .list l items => .list l (Expr.substituteAll label new items)
  | .comprehension l kind element var source cond =>
    .comprehension l kind (Expr.substitute label new element) var
      (Expr.substitute label new source) (Expr.substituteCond label new cond)
  | .binary l op left right =>
    .binary l op (Expr.substitute label new left) (Expr.substitute label new right)
  | .unary l op operand => .unary l op (Expr.substitute label new operand)
  | .logic l op left right =>
    .logic l op (Expr.substitute label new left) (Expr.substitute label new right)
  | .compare l op left right =>
    .compare l op (Expr.substitute label new left) (Expr.substitute label new right)
  | .call l callee args =>
    .call l (Expr.substitute label new callee) (Expr.substituteAll label new args)
  | .attribute l value attr => .attribute l (Expr.substitute label new value) attr
  | .subscript l value index =>
    .subscript l (Expr.substitute label new value) (Expr.substitute label new index)

theorem Expr.substitute_eq (e : Expr Label) : Expr.substitute label new e =
    if e.tag = label then new else Expr.substituteBelow label new e := by
  cases e <;> rw [Expr.substitute] <;> rfl

theorem Expr.tag_substituteBelow (e : Expr Label) : (Expr.substituteBelow label new e).tag = e.tag := by
  cases e <;> rfl

theorem Expr.isAssignable_substituteBelow (e : Expr Label) :
    (Expr.substituteBelow label new e).isAssignable = e.isAssignable := by
  cases e <;> rfl

/-- What replacing a node makes of some expressions: parts of the new one, and the
expressions themselves with the node replaced below them. -/
def Expr.Becomes (label : Label) (new : Expr Label) (old : List (Expr Label)) (e' : Expr Label) :
    Prop :=
  e' ∈ new.subterms ∨ ∃ e ∈ old, e.tag ≠ label ∧ e' = Expr.substituteBelow label new e

theorem Expr.Becomes.mono (h : Expr.Becomes label new old e') (hold : ∀ e ∈ old, e ∈ old') :
    Expr.Becomes label new old' e' :=
  h.imp_right fun ⟨e, he, hbecomes⟩ => ⟨e, hold e he, hbecomes⟩

theorem Expr.self_mem_subterms {α : Type} (e : Expr α) : e ∈ e.subterms := by
  cases e <;> exact List.mem_cons_self ..

section

variable {α : Type} {part inner : Expr α}

mutual

theorem Expr.mem_subterms_of_part (h' : inner ∈ part.subterms) : ∀ {e : Expr α},
    part ∈ e.subterms → inner ∈ e.subterms
  | .name .., h | .constant .., h => by
    rw [List.mem_singleton.mp h] at h'
    exact h'
  | .list .., h => by
    rcases List.mem_cons.mp h with rfl | h
    · exact h'
    · exact .tail _ (Expr.mem_subtermsAll_of_part h' h)
  | .unary .., h | .attribute .., h => by
    rcases List.mem_cons.mp h with rfl | h
    · exact h'
    · exact .tail _ (Expr.mem_subterms_of_part h' h)
  | .comprehension .., h => by
    simp only [Expr.subterms, List.mem_cons, List.mem_append] at h
    rcases h with rfl | (h | h) | h
    · exact h'
    · simp [Expr.subterms, Expr.mem_subterms_of_part h' h]
    · simp [Expr.subterms, Expr.mem_subterms_of_part h' h]
    · simp [Expr.subterms, Expr.mem_subtermsCond_of_part h' h]
  | .binary .., h | .logic .., h | .compare .., h | .subscript .., h => by
    simp only [Expr.subterms, List.mem_cons, List.mem_append] at h
    rcases h with rfl | h | h
    · exact h'
    · simp [Expr.subterms, Expr.mem_subterms_of_part h' h]
    · simp [Expr.subterms, Expr.mem_subterms_of_part h' h]
  | .call .., h => by
    simp only [Expr.subterms, List.mem_cons, List.mem_append] at h
    rcases h with rfl | h | h
    · exact h'
    · simp [Expr.subterms, Expr.mem_subterms_of_part h' h]
    · simp [Expr.subterms, Expr.mem_subtermsAll_of_part h' h]

theorem Expr.mem_subtermsAll_of_part (h' : inner ∈ part.subterms) : ∀ {es : List (Expr α)},
    part ∈ Expr.subtermsAll es → inner ∈ Expr.subtermsAll es
  | [], h => nomatch h
  | _ :: _, h => by
    rcases List.mem_append.mp h with h | h
    · exact List.mem_append_left _ (Expr.mem_subterms_of_part h' h)
    · exact List.mem_append_right _ (Expr.mem_subtermsAll_of_part h' h)

theorem Expr.mem_subtermsCond_of_part (h' : inner ∈ part.subterms) : ∀ {cond : Option (Expr α)},
    part ∈ Expr.subtermsCond cond → inner ∈ Expr.subtermsCond cond
  | none, h => nomatch h
  | some _, h => Expr.mem_subterms_of_part h' h

end

/-- The parts of a part of an expression are parts of it. -/
theorem Expr.mem_subterms_trans {e : Expr α} (h : part ∈ e.subterms) (h' : inner ∈ part.subterms) :
    inner ∈ e.subterms :=
  Expr.mem_subterms_of_part h' h

end

/-- Either the whole expression is replaced, or something below it. -/
theorem Expr.becomes_of_below {e : Expr Label} (h : e' ∈ (Expr.substitute label new e).subterms)
    (hbelow : e' ∈ (Expr.substituteBelow label new e).subterms →
      e' = Expr.substituteBelow label new e ∨ Expr.Becomes label new e.subterms e') :
    Expr.Becomes label new e.subterms e' := by
  rw [Expr.substitute_eq] at h
  by_cases hl : e.tag = label
  · rw [if_pos hl] at h
    exact .inl h
  · rw [if_neg hl] at h
    rcases hbelow h with h | h
    · exact .inr ⟨e, e.self_mem_subterms, hl, h⟩
    · exact h

mutual

/-- By induction on the expression: its parts are those of the new one, or of the
expressions below it. -/
theorem Expr.mem_substitute : ∀ {e e' : Expr Label},
    e' ∈ (Expr.substitute label new e).subterms → Expr.Becomes label new e.subterms e'
  | .name .., _, h => Expr.becomes_of_below h fun h => .inl (List.mem_singleton.mp h)
  | .constant .., _, h => Expr.becomes_of_below h fun h => .inl (List.mem_singleton.mp h)
  | .list .., _, h => Expr.becomes_of_below h fun h => (List.mem_cons.mp h).imp_right fun h =>
    (Expr.mem_substituteAll h).mono fun _ he => .tail _ he
  | .comprehension .., _, h => Expr.becomes_of_below h fun h => by
    simp only [Expr.substituteBelow, Expr.subterms, List.mem_cons, List.mem_append] at h
    rcases h with rfl | (h | h) | h
    · exact .inl rfl
    · exact .inr ((Expr.mem_substitute h).mono fun _ he => by simp [Expr.subterms, he])
    · exact .inr ((Expr.mem_substitute h).mono fun _ he => by simp [Expr.subterms, he])
    · exact .inr ((Expr.mem_substituteCond h).mono fun _ he => by simp [Expr.subterms, he])
  | .binary .., _, h => Expr.becomes_of_below h fun h => by
    simp only [Expr.substituteBelow, Expr.subterms, List.mem_cons, List.mem_append] at h
    rcases h with rfl | h | h
    · exact .inl rfl
    · exact .inr ((Expr.mem_substitute h).mono fun _ he => by simp [Expr.subterms, he])
    · exact .inr ((Expr.mem_substitute h).mono fun _ he => by simp [Expr.subterms, he])
  | .unary .., _, h => Expr.becomes_of_below h fun h => (List.mem_cons.mp h).imp_right fun h =>
    (Expr.mem_substitute h).mono fun _ he => .tail _ he
  | .logic .., _, h => Expr.becomes_of_below h fun h => by
    simp only [Expr.substituteBelow, Expr.subterms, List.mem_cons, List.mem_append] at h
    rcases h with rfl | h | h
    · exact .inl rfl
    · exact .inr ((Expr.mem_substitute h).mono fun _ he => by simp [Expr.subterms, he])
    · exact .inr ((Expr.mem_substitute h).mono fun _ he => by simp [Expr.subterms, he])
  | .compare .., _, h => Expr.becomes_of_below h fun h => by
    simp only [Expr.substituteBelow, Expr.subterms, List.mem_cons, List.mem_append] at h
    rcases h with rfl | h | h
    · exact .inl rfl
    · exact .inr ((Expr.mem_substitute h).mono fun _ he => by simp [Expr.subterms, he])
    · exact .inr ((Expr.mem_substitute h).mono fun _ he => by simp [Expr.subterms, he])
  | .call .., _, h => Expr.becomes_of_below h fun h => by
    simp only [Expr.substituteBelow, Expr.subterms, List.mem_cons, List.mem_append] at h
    rcases h with rfl | h | h
    · exact .inl rfl
    · exact .inr ((Expr.mem_substitute h).mono fun _ he => by simp [Expr.subterms, he])
    · exact .inr ((Expr.mem_substituteAll h).mono fun _ he => by simp [Expr.subterms, he])
  | .attribute .., _, h => Expr.becomes_of_below h fun h => (List.mem_cons.mp h).imp_right fun h =>
    (Expr.mem_substitute h).mono fun _ he => .tail _ he
  | .subscript .., _, h => Expr.becomes_of_below h fun h => by
    simp only [Expr.substituteBelow, Expr.subterms, List.mem_cons, List.mem_append] at h
    rcases h with rfl | h | h
    · exact .inl rfl
    · exact .inr ((Expr.mem_substitute h).mono fun _ he => by simp [Expr.subterms, he])
    · exact .inr ((Expr.mem_substitute h).mono fun _ he => by simp [Expr.subterms, he])

theorem Expr.mem_substituteAll : ∀ {es : List (Expr Label)} {e' : Expr Label},
    e' ∈ Expr.subtermsAll (Expr.substituteAll label new es) →
      Expr.Becomes label new (Expr.subtermsAll es) e'
  | [], _, h => nomatch h
  | e :: rest, e', h => by
    rcases List.mem_append.mp h with h | h
    · exact (Expr.mem_substitute h).mono fun _ he => List.mem_append_left _ he
    · exact (Expr.mem_substituteAll h).mono fun _ he => List.mem_append_right _ he

theorem Expr.mem_substituteCond : ∀ {cond : Option (Expr Label)} {e' : Expr Label},
    e' ∈ Expr.subtermsCond (Expr.substituteCond label new cond) →
      Expr.Becomes label new (Expr.subtermsCond cond) e'
  | none, _, h => nomatch h
  | some _, _, h => Expr.mem_substitute h

end

end

/-! ### Statements whose expressions are changed -/

section

variable {f : Expr Label → Expr Label} {old old' : List (Node Label)} {node : Node Label}

/-- What a change of the expressions of statements makes of some nodes: the statements with
their expressions changed, and parts of the changed expressions. -/
def Node.Changed (f : Expr Label → Expr Label) (old : List (Node Label)) (node : Node Label) :
    Prop :=
  (∃ s, .stmt s ∈ old ∧ node = .stmt (s.mapExprs f)) ∨
    ∃ e, (∀ part ∈ e.nodes, part ∈ old) ∧ node ∈ (f e).nodes

theorem Node.Changed.mono (h : node.Changed f old) (hold : ∀ n ∈ old, n ∈ old') :
    node.Changed f old' :=
  h.imp (fun ⟨s, hs, heq⟩ => ⟨s, hold _ hs, heq⟩)
    fun ⟨e, he, hnode⟩ => ⟨e, fun part hpart => hold _ (he part hpart), hnode⟩

theorem Node.changed_expr {e : Expr Label} (h : node ∈ (f e).nodes)
    (he : ∀ part ∈ e.nodes, part ∈ old) : node.Changed f old :=
  .inr ⟨e, he, h⟩

mutual

theorem Stmt.mem_mapExprs : ∀ {s : Stmt Label} {node : Node Label},
    node ∈ (s.mapExprs f).nodes → node.Changed f s.nodes
  | .functionDef .., _, h => by
    rcases List.mem_cons.mp h with rfl | h
    · exact .inl ⟨_, List.mem_cons_self .., rfl⟩
    · exact (Block.mem_mapExprs h).mono fun _ hn => .tail _ hn
  | .ret _ none, _, h | .pass _, _, h | .brk _, _, h | .cont _, _, h => by
    rw [List.mem_singleton.mp h]
    exact .inl ⟨_, List.mem_cons_self .., rfl⟩
  | .ret _ (some value), _, h => by
    rcases List.mem_cons.mp h with rfl | h
    · exact .inl ⟨_, List.mem_cons_self .., rfl⟩
    · exact Node.changed_expr h fun _ hn => .tail _ hn
  | .assign _ target value, _, h => by
    simp only [Stmt.mapExprs, Stmt.nodes, List.mem_cons, List.mem_append] at h
    rcases h with rfl | h | h
    · exact .inl ⟨_, List.mem_cons_self .., rfl⟩
    · exact Node.changed_expr h fun _ hn => by simp [Stmt.nodes, hn]
    · exact Node.changed_expr h fun _ hn => by simp [Stmt.nodes, hn]
  | .augAssign _ target op value, _, h => by
    simp only [Stmt.mapExprs, Stmt.nodes, List.mem_cons, List.mem_append] at h
    rcases h with rfl | h | h
    · exact .inl ⟨_, List.mem_cons_self .., rfl⟩
    · exact Node.changed_expr h fun _ hn => by simp [Stmt.nodes, hn]
    · exact Node.changed_expr h fun _ hn => by simp [Stmt.nodes, hn]
  | .forLoop _ var source body, _, h => by
    simp only [Stmt.mapExprs, Stmt.nodes, List.mem_cons, List.mem_append] at h
    rcases h with rfl | h | h
    · exact .inl ⟨_, List.mem_cons_self .., rfl⟩
    · exact Node.changed_expr h fun _ hn => by simp [Stmt.nodes, hn]
    · exact (Block.mem_mapExprs h).mono fun _ hn => by simp [Stmt.nodes, hn]
  | .whileLoop _ test body, _, h => by
    simp only [Stmt.mapExprs, Stmt.nodes, List.mem_cons, List.mem_append] at h
    rcases h with rfl | h | h
    · exact .inl ⟨_, List.mem_cons_self .., rfl⟩
    · exact Node.changed_expr h fun _ hn => by simp [Stmt.nodes, hn]
    · exact (Block.mem_mapExprs h).mono fun _ hn => by simp [Stmt.nodes, hn]
  | .ifElse _ test body orelse, _, h => by
    simp only [Stmt.mapExprs, Stmt.nodes, List.mem_cons, List.mem_append] at h
    rcases h with rfl | (h | h) | h
    · exact .inl ⟨_, List.mem_cons_self .., rfl⟩
    · exact Node.changed_expr h fun _ hn => by simp [Stmt.nodes, hn]
    · exact (Block.mem_mapExprs h).mono fun _ hn => by simp [Stmt.nodes, hn]
    · exact (Block.mem_mapExprs h).mono fun _ hn => by simp [Stmt.nodes, hn]
  | .expr _ value, _, h => by
    rcases List.mem_cons.mp h with rfl | h
    · exact .inl ⟨_, List.mem_cons_self .., rfl⟩
    · exact Node.changed_expr h fun _ hn => .tail _ hn

theorem Block.mem_mapExprs : ∀ {body : List (Stmt Label)} {node : Node Label},
    node ∈ Block.nodes (Block.mapExprs f body) → node.Changed f (Block.nodes body)
  | [], _, h => nomatch h
  | _ :: _, _, h => by
    rcases List.mem_append.mp h with h | h
    · exact (Stmt.mem_mapExprs h).mono fun _ hn => List.mem_append_left _ hn
    · exact (Block.mem_mapExprs h).mono fun _ hn => List.mem_append_right _ hn

end

end

/-! ### Statements replaced -/

/-- Statements that differ in the statements of their blocks only. -/
inductive Stmt.SameOutside : Stmt Label → Stmt Label → Prop
  | refl (s : Stmt Label) : SameOutside s s
  | functionDef (l : Label) (name : String) (params : List String) (body body' : Block Label) :
      SameOutside (.functionDef l name params body) (.functionDef l name params body')
  | forLoop (l : Label) (var : String) (source : Expr Label) (body body' : Block Label) :
      SameOutside (.forLoop l var source body) (.forLoop l var source body')
  | whileLoop (l : Label) (test : Expr Label) (body body' : Block Label) :
      SameOutside (.whileLoop l test body) (.whileLoop l test body')
  | ifElse (l : Label) (test : Expr Label) (body body' orelse orelse' : Block Label) :
      SameOutside (.ifElse l test body orelse) (.ifElse l test body' orelse')

section

variable {old old' : List (Node Label)} {node : Node Label}

/-- What a change of blocks makes of some nodes: expressions as they are, and statements that
differ in their blocks. -/
inductive Node.Kept (old : List (Node Label)) : Node Label → Prop
  | expr {e : Expr Label} (h : .expr e ∈ old) : Kept old (.expr e)
  | stmt {s s' : Stmt Label} (h : .stmt s ∈ old) (hsame : s.SameOutside s') : Kept old (.stmt s')

theorem Node.Kept.mono (h : node.Kept old) (hold : ∀ n ∈ old, n ∈ old') : node.Kept old' := by
  cases h with
  | expr h => exact .expr (hold _ h)
  | stmt h hsame => exact .stmt (hold _ h) hsame

theorem Node.Kept.of_mem (h : node ∈ old) : node.Kept old := by
  cases node with
  | expr e => exact .expr h
  | stmt s => exact .stmt h (.refl s)

end

theorem Block.mem_replaceIn {new body : Block Label} {node : Node Label}
    (hbelow : node ∈ Block.nodes (Block.replaceBelow label new body) →
      node ∈ Block.nodes new ∨ node.Kept (Block.nodes body))
    (h : node ∈ Block.nodes (if Block.holds label body then new else Block.replaceBelow label new body)) :
    node ∈ Block.nodes new ∨ node.Kept (Block.nodes body) := by
  split at h
  · exact .inl h
  · exact hbelow h

mutual

/-- By induction on the statement: its nodes are those of the new block, or are kept. -/
theorem Stmt.mem_replaceAround {new : Block Label} : ∀ {s : Stmt Label} {node : Node Label},
    node ∈ (Stmt.replaceAround label new s).nodes → node ∈ Block.nodes new ∨ node.Kept s.nodes
  | .functionDef .., _, h => by
    rcases List.mem_cons.mp h with rfl | h
    · exact .inr (.stmt (List.mem_cons_self ..) (.functionDef ..))
    · exact (Block.mem_replaceIn Block.mem_replaceBelow h).imp_right fun h => h.mono fun _ hn => .tail _ hn
  | .forLoop .., _, h => by
    simp only [Stmt.replaceAround, Stmt.nodes, List.mem_cons, List.mem_append] at h
    rcases h with rfl | h | h
    · exact .inr (.stmt (List.mem_cons_self ..) (.forLoop ..))
    · exact .inr (.of_mem (by simp [Stmt.nodes, h]))
    · exact (Block.mem_replaceIn Block.mem_replaceBelow h).imp_right fun h => h.mono fun _ hn => by
        simp [Stmt.nodes, hn]
  | .whileLoop .., _, h => by
    simp only [Stmt.replaceAround, Stmt.nodes, List.mem_cons, List.mem_append] at h
    rcases h with rfl | h | h
    · exact .inr (.stmt (List.mem_cons_self ..) (.whileLoop ..))
    · exact .inr (.of_mem (by simp [Stmt.nodes, h]))
    · exact (Block.mem_replaceIn Block.mem_replaceBelow h).imp_right fun h => h.mono fun _ hn => by
        simp [Stmt.nodes, hn]
  | .ifElse .., _, h => by
    simp only [Stmt.replaceAround, Stmt.nodes, List.mem_cons, List.mem_append] at h
    rcases h with rfl | (h | h) | h
    · exact .inr (.stmt (List.mem_cons_self ..) (.ifElse ..))
    · exact .inr (.of_mem (by simp [Stmt.nodes, h]))
    · exact (Block.mem_replaceIn Block.mem_replaceBelow h).imp_right fun h => h.mono fun _ hn => by
        simp [Stmt.nodes, hn]
    · exact (Block.mem_replaceIn Block.mem_replaceBelow h).imp_right fun h => h.mono fun _ hn => by
        simp [Stmt.nodes, hn]
  | .ret .., _, h | .assign .., _, h | .augAssign .., _, h | .expr .., _, h | .pass _, _, h
  | .brk _, _, h | .cont _, _, h => .inr (.of_mem h)

theorem Block.mem_replaceBelow {new : Block Label} : ∀ {body : List (Stmt Label)} {node : Node Label},
    node ∈ Block.nodes (Block.replaceBelow label new body) →
      node ∈ Block.nodes new ∨ node.Kept (Block.nodes body)
  | [], _, h => nomatch h
  | _ :: _, _, h => by
    rcases List.mem_append.mp h with h | h
    · exact (Stmt.mem_replaceAround h).imp_right fun h => h.mono fun _ hn =>
        List.mem_append_left _ hn
    · exact (Block.mem_replaceBelow h).imp_right fun h => h.mono fun _ hn =>
        List.mem_append_right _ hn

end

/-- What replacing the block around a statement makes of a program. -/
theorem Block.mem_replaceAround {new body : Block Label} {node : Node Label}
    (h : node ∈ Block.nodes (Block.replaceAround label new body)) :
    node ∈ Block.nodes new ∨ node.Kept (Block.nodes body) :=
  Block.mem_replaceIn Block.mem_replaceBelow h

/-- A statement with a statement in its blocks replaced. -/
def Stmt.substituteBelow (label : Label) (new : Stmt Label) : Stmt Label → Stmt Label
  | .functionDef l name params body => .functionDef l name params (Block.substituteStmt label new body)
  | .forLoop l var source body => .forLoop l var source (Block.substituteStmt label new body)
  | .whileLoop l test body => .whileLoop l test (Block.substituteStmt label new body)
  | .ifElse l test body orelse =>
    .ifElse l test (Block.substituteStmt label new body) (Block.substituteStmt label new orelse)
  | s => s

section

variable {new : Stmt Label} {old old' : List (Node Label)} {node : Node Label}

theorem Stmt.substituteStmt_eq (s : Stmt Label) : Stmt.substituteStmt label new s =
    if s.tag = label then new else Stmt.substituteBelow label new s := by
  cases s <;> rfl

/-- What replacing a statement makes of some nodes: parts of the new one, expressions as they are,
and the statements themselves with the statement replaced below them. -/
inductive Node.Respliced (label : Label) (new : Stmt Label) (old : List (Node Label)) : Node Label → Prop
  | new {node : Node Label} (h : node ∈ new.nodes) : Respliced label new old node
  | expr {e : Expr Label} (h : .expr e ∈ old) : Respliced label new old (.expr e)
  | stmt {s : Stmt Label} (h : .stmt s ∈ old) (htag : s.tag ≠ label) :
      Respliced label new old (.stmt (Stmt.substituteBelow label new s))

theorem Node.Respliced.mono (h : node.Respliced label new old) (hold : ∀ n ∈ old, n ∈ old') :
    node.Respliced label new old' := by
  cases h with
  | new h => exact .new h
  | expr h => exact .expr (hold _ h)
  | stmt h htag => exact .stmt (hold _ h) htag

theorem Node.Respliced.of_expr {e : Expr Label} (h : node ∈ e.nodes) (hold : ∀ n ∈ e.nodes, n ∈ old) :
    node.Respliced label new old := by
  obtain ⟨e', he', rfl⟩ := List.mem_map.mp h
  exact .expr (hold _ h)

/-- Either the whole statement is replaced, or something below it. -/
theorem Stmt.respliced_of_below {s : Stmt Label} (h : node ∈ (Stmt.substituteStmt label new s).nodes)
    (hbelow : node ∈ (Stmt.substituteBelow label new s).nodes →
      node = .stmt (Stmt.substituteBelow label new s) ∨ node.Respliced label new s.nodes) :
    node.Respliced label new s.nodes := by
  rw [Stmt.substituteStmt_eq] at h
  by_cases htag : s.tag = label
  · rw [if_pos htag] at h
    exact .new h
  · rw [if_neg htag] at h
    have hself : .stmt s ∈ s.nodes := by
      cases s with
      | ret _ value => cases value <;> exact List.mem_cons_self ..
      | _ => exact List.mem_cons_self ..
    rcases hbelow h with rfl | h
    · exact .stmt hself htag
    · exact h

mutual

/-- By induction on the statement: its nodes are those of the new one, or are kept. -/
theorem Stmt.mem_substituteStmt : ∀ {s : Stmt Label} {node : Node Label},
    node ∈ (Stmt.substituteStmt label new s).nodes → node.Respliced label new s.nodes
  | .functionDef .., _, h => Stmt.respliced_of_below h fun h => (List.mem_cons.mp h).imp_right fun h =>
    (Block.mem_substituteStmt h).mono fun _ hn => .tail _ hn
  | .forLoop .., _, h | .whileLoop .., _, h => Stmt.respliced_of_below h fun h => by
    simp only [Stmt.substituteBelow, Stmt.nodes, List.mem_cons, List.mem_append] at h
    rcases h with rfl | h | h
    · exact .inl rfl
    · exact .inr (.of_expr h fun _ hn => by simp [Stmt.nodes, hn])
    · exact .inr ((Block.mem_substituteStmt h).mono fun _ hn => by simp [Stmt.nodes, hn])
  | .ifElse .., _, h => Stmt.respliced_of_below h fun h => by
    simp only [Stmt.substituteBelow, Stmt.nodes, List.mem_cons, List.mem_append] at h
    rcases h with rfl | (h | h) | h
    · exact .inl rfl
    · exact .inr (.of_expr h fun _ hn => by simp [Stmt.nodes, hn])
    · exact .inr ((Block.mem_substituteStmt h).mono fun _ hn => by simp [Stmt.nodes, hn])
    · exact .inr ((Block.mem_substituteStmt h).mono fun _ hn => by simp [Stmt.nodes, hn])
  | .ret _ none, _, h | .pass _, _, h | .brk _, _, h | .cont _, _, h =>
    Stmt.respliced_of_below h fun h => .inl (List.mem_singleton.mp h)
  | .ret _ (some _), _, h | .expr .., _, h => Stmt.respliced_of_below h fun h =>
    (List.mem_cons.mp h).imp_right fun h => .of_expr h fun _ hn => .tail _ hn
  | .assign .., _, h | .augAssign .., _, h => Stmt.respliced_of_below h fun h => by
    simp only [Stmt.substituteBelow, Stmt.nodes, List.mem_cons, List.mem_append] at h
    rcases h with rfl | h | h
    · exact .inl rfl
    · exact .inr (.of_expr h fun _ hn => by simp [Stmt.nodes, hn])
    · exact .inr (.of_expr h fun _ hn => by simp [Stmt.nodes, hn])

/-- What replacing a statement makes of a program. -/
theorem Block.mem_substituteStmt : ∀ {body : List (Stmt Label)} {node : Node Label},
    node ∈ Block.nodes (Block.substituteStmt label new body) →
      node.Respliced label new (Block.nodes body)
  | [], _, h => nomatch h
  | _ :: _, _, h => by
    rcases List.mem_append.mp h with h | h
    · exact (Stmt.mem_substituteStmt h).mono fun _ hn => List.mem_append_left _ hn
    · exact (Block.mem_substituteStmt h).mono fun _ hn => List.mem_append_right _ hn

end

/-- Statements below which a statement is replaced differ in their blocks only. -/
theorem Node.Respliced.kept (h : node.Respliced label new old) : node ∈ new.nodes ∨ node.Kept old := by
  cases h with
  | new h => exact .inl h
  | expr h => exact .inr (.expr h)
  | @stmt s h _ => exact .inr (.stmt h (by cases s <;> constructor))

end

/-! ### Nodes below nodes -/

section

variable {α : Type} {node inner : Node α}

/-- A node and everything below it. -/
def Node.nodes : Node α → List (Node α)
  | .stmt s => s.nodes
  | .expr e => e.nodes

theorem Stmt.self_mem_nodes (s : Stmt α) : .stmt s ∈ s.nodes := by
  cases s with
  | ret _ value => cases value <;> exact List.mem_cons_self ..
  | _ => exact List.mem_cons_self ..

theorem Expr.self_mem_nodes (e : Expr α) : .expr e ∈ e.nodes :=
  List.mem_map_of_mem e.self_mem_subterms

theorem Expr.forall_mem_nodes {e : Expr α} {p : Node α → Prop} :
    (∀ n ∈ e.nodes, p n) ↔ ∀ part ∈ e.subterms, p (.expr part) :=
  List.forall_mem_map

theorem Expr.mem_nodes_trans {e : Expr α} (h : node ∈ e.nodes) (h' : inner ∈ node.nodes) :
    inner ∈ e.nodes := by
  obtain ⟨part, hpart, rfl⟩ := List.mem_map.mp h
  obtain ⟨part', hpart', rfl⟩ := List.mem_map.mp h'
  exact List.mem_map_of_mem (Expr.mem_subterms_trans hpart hpart')

mutual

theorem Stmt.mem_nodes_trans : ∀ {s : Stmt α} {node inner : Node α},
    node ∈ s.nodes → inner ∈ node.nodes → inner ∈ s.nodes
  | .functionDef .., _, _, h, h' => by
    rcases List.mem_cons.mp h with rfl | h
    · exact h'
    · exact .tail _ (Block.mem_nodes_trans h h')
  | .ret _ none, _, _, h, h' | .pass _, _, _, h, h' | .brk _, _, _, h, h' | .cont _, _, _, h, h' => by
    rw [List.mem_singleton.mp h] at h'
    exact h'
  | .ret _ (some _), _, _, h, h' | .expr .., _, _, h, h' => by
    rcases List.mem_cons.mp h with rfl | h
    · exact h'
    · exact .tail _ (Expr.mem_nodes_trans h h')
  | .assign .., _, _, h, h' | .augAssign .., _, _, h, h' => by
    simp only [Stmt.nodes, List.mem_cons, List.mem_append] at h
    rcases h with rfl | h | h
    · exact h'
    · simp [Stmt.nodes, Expr.mem_nodes_trans h h']
    · simp [Stmt.nodes, Expr.mem_nodes_trans h h']
  | .forLoop .., _, _, h, h' | .whileLoop .., _, _, h, h' => by
    simp only [Stmt.nodes, List.mem_cons, List.mem_append] at h
    rcases h with rfl | h | h
    · exact h'
    · simp [Stmt.nodes, Expr.mem_nodes_trans h h']
    · simp [Stmt.nodes, Block.mem_nodes_trans h h']
  | .ifElse .., _, _, h, h' => by
    simp only [Stmt.nodes, List.mem_cons, List.mem_append] at h
    rcases h with rfl | (h | h) | h
    · exact h'
    · simp [Stmt.nodes, Expr.mem_nodes_trans h h']
    · simp [Stmt.nodes, Block.mem_nodes_trans h h']
    · simp [Stmt.nodes, Block.mem_nodes_trans h h']

/-- What is below a node of a program belongs to the program. -/
theorem Block.mem_nodes_trans : ∀ {body : List (Stmt α)} {node inner : Node α},
    node ∈ Block.nodes body → inner ∈ node.nodes → inner ∈ Block.nodes body
  | [], _, _, h, _ => nomatch h
  | _ :: _, _, _, h, h' => by
    rcases List.mem_append.mp h with h | h
    · exact List.mem_append_left _ (Stmt.mem_nodes_trans h h')
    · exact List.mem_append_right _ (Block.mem_nodes_trans h h')

end

end

/-! ### The statements around a statement -/

theorem Block.nodes_append {α : Type} (body rest : List (Stmt α)) :
    Block.nodes (body ++ rest) = Block.nodes body ++ Block.nodes rest := by
  induction body with
  | nil => rfl
  | cons s body ih =>
    show s.nodes ++ Block.nodes (body ++ rest) = (s.nodes ++ Block.nodes body) ++ Block.nodes rest
    rw [ih, List.append_assoc]

/-- Cutting a block at a statement takes it apart. -/
theorem Block.cut?_eq_some : ∀ {block before : Block Label} {found : Block Label × Stmt Label × Block Label},
    Block.cut? label before block = some found →
      before ++ block = found.1 ++ found.2.1 :: found.2.2 ∧ found.2.1.tag = label
  | [], _, _, h => nomatch h
  | s :: rest, before, found, h => by
    unfold Block.cut? at h
    split at h
    · rename_i hs
      cases h
      exact ⟨rfl, hs⟩
    · obtain ⟨hblock, htag⟩ := Block.cut?_eq_some h
      exact ⟨by rw [← hblock, List.append_assoc]; rfl, htag⟩

/-- The statements of the block that a focus is on. -/
def Focus.block (focus : Focus) : Block Label := focus.before ++ focus.stmt :: focus.after

mutual

theorem Stmt.mem_of_focus? : ∀ {s : Stmt Label} {focus : Focus}, Stmt.focus? label s = some focus →
    focus.stmt.tag = label ∧ ∀ node ∈ Block.nodes focus.block, node ∈ s.nodes
  | .functionDef _ _ _ body, focus, h => by
    obtain ⟨htag, hnodes⟩ := Block.mem_of_focusIn? h
    exact ⟨htag, fun node hn => .tail _ ((hnodes node hn).elim id id)⟩
  | .forLoop _ _ source body, focus, h => by
    obtain ⟨htag, hnodes⟩ := Block.mem_of_focusIn? h
    exact ⟨htag, fun node hn => by simp [Stmt.nodes, (hnodes node hn).elim id id]⟩
  | .whileLoop _ test body, focus, h => by
    obtain ⟨htag, hnodes⟩ := Block.mem_of_focusIn? h
    exact ⟨htag, fun node hn => by simp [Stmt.nodes, (hnodes node hn).elim id id]⟩
  | .ifElse _ test body orelse, focus, h => by
    rcases Option.or_eq_some_iff.mp h with h | ⟨-, h⟩
    · obtain ⟨htag, hnodes⟩ := Block.mem_of_focusIn? h
      exact ⟨htag, fun node hn => by simp [Stmt.nodes, (hnodes node hn).elim id id]⟩
    · obtain ⟨htag, hnodes⟩ := Block.mem_of_focusIn? h
      exact ⟨htag, fun node hn => by simp [Stmt.nodes, (hnodes node hn).elim id id]⟩
  | .ret .., _, h | .assign .., _, h | .augAssign .., _, h | .expr .., _, h | .pass _, _, h
  | .brk _, _, h | .cont _, _, h => nomatch h

theorem Block.mem_of_focusIn? {required : Bool} {block : Block Label} :
    ∀ {rest : List (Stmt Label)} {focus : Focus},
      Block.focusIn? label required block rest = some focus →
        focus.stmt.tag = label ∧
          ∀ node ∈ Block.nodes focus.block, node ∈ Block.nodes block ∨ node ∈ Block.nodes rest
  | [], focus, h => by
    obtain ⟨⟨before, s, after⟩, hcut, rfl⟩ := Option.map_eq_some_iff.mp h
    obtain ⟨hblock, htag⟩ := Block.cut?_eq_some hcut
    refine ⟨htag, fun node hn => .inl ?_⟩
    rw [show block = _ from hblock]
    exact hn
  | s :: rest, focus, h => by
    rcases Option.or_eq_some_iff.mp h with h | ⟨-, h⟩
    · obtain ⟨htag, hnodes⟩ := Stmt.mem_of_focus? h
      exact ⟨htag, fun node hn => .inr (List.mem_append_left _ (hnodes node hn))⟩
    · obtain ⟨htag, hnodes⟩ := Block.mem_of_focusIn? h
      exact ⟨htag, fun node hn => (hnodes node hn).imp_right (List.mem_append_right _)⟩

end

/-- A statement and the statements around it are nodes of the program. -/
theorem Block.mem_of_focus? {body : Block Label} {focus : Focus}
    (h : Block.focus? label body = some focus) :
    focus.stmt.tag = label ∧ ∀ node ∈ Block.nodes focus.block, node ∈ Block.nodes body :=
  (Block.mem_of_focusIn? h).imp_right fun hnodes node hn => (hnodes node hn).elim id id

end ProgramBreeding

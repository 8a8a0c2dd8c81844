import ProgramBreeding.Tree.Labelled

/-!
# Numbering

Numbering a program gives all its nodes labels of their own and changes nothing else.

## Main definitions

* `Numbered` — distinct labels from a range.
* `Stmt.number_numbered`, `Block.number_numbered` — the labels that numbering gives.
* `Stmt.number_shape`, `Block.number_shape` — numbering leaves the shape of a program.
* `Block.nodes_map` — the nodes of a program with other tags.
-/

namespace ProgramBreeding

variable {α : Type}

/-- Distinct labels from `first` on and below `next`. -/
structure Numbered (first next : Label) (labels : List Label) : Prop where
  le : first ≤ next
  nodup : labels.Nodup
  range : ∀ l ∈ labels, first ≤ l ∧ l < next

namespace Numbered

variable {a b c : Label} {labels more : List Label}

theorem nil (a : Label) : Numbered a a [] := ⟨Nat.le_refl a, List.nodup_nil, nofun⟩

theorem append (h : Numbered a b labels) (h' : Numbered b c more) :
    Numbered a c (labels ++ more) where
  le := Nat.le_trans h.le h'.le
  nodup := by
    refine List.nodup_append.mpr ⟨h.nodup, h'.nodup, ?_⟩
    rintro l hl l' hl' rfl
    exact Nat.not_lt.mpr (h'.range l hl').1 (h.range l hl).2
  range l hl := by
    have hle := h.le
    have hle' := h'.le
    rcases List.mem_append.mp hl with hl | hl
    · have hrange := h.range l hl
      exact ⟨hrange.1, Nat.lt_of_lt_of_le hrange.2 hle'⟩
    · have hrange := h'.range l hl
      exact ⟨Nat.le_trans hle hrange.1, hrange.2⟩

/-- A node is numbered after everything below it. -/
theorem cons (h : Numbered a b labels) : Numbered a (b + 1) (b :: labels) where
  le := Nat.le_succ_of_le h.le
  nodup := List.nodup_cons.mpr ⟨fun hb => Nat.lt_irrefl b (h.range b hb).2, h.nodup⟩
  range l hl := by
    rcases List.mem_cons.mp hl with rfl | hl
    · exact ⟨h.le, Nat.lt_succ_self _⟩
    · exact ⟨(h.range l hl).1, Nat.lt_succ_of_lt (h.range l hl).2⟩

end Numbered

mutual

theorem Expr.number_numbered : ∀ (e : Expr α) (a : Label),
    Numbered a (e.number a).2 ((e.number a).1.subterms.map Expr.tag)
  | .name .., a | .constant .., a => (Numbered.nil a).cons
  | .list _ items, a => (Expr.numberAll_numbered items a).cons
  | .comprehension _ kind element var source cond, a => by
    have helement := Expr.number_numbered element a
    have hsource := Expr.number_numbered source (element.number a).2
    have hcond := Expr.numberCond_numbered cond (source.number (element.number a).2).2
    simpa [Expr.number, Expr.subterms, Expr.tag] using ((helement.append hsource).append hcond).cons
  | .binary _ op left right, a => by
    have hleft := Expr.number_numbered left a
    have hright := Expr.number_numbered right (left.number a).2
    simpa [Expr.number, Expr.subterms, Expr.tag] using (hleft.append hright).cons
  | .unary _ op operand, a => (Expr.number_numbered operand a).cons
  | .logic _ op left right, a => by
    have hleft := Expr.number_numbered left a
    have hright := Expr.number_numbered right (left.number a).2
    simpa [Expr.number, Expr.subterms, Expr.tag] using (hleft.append hright).cons
  | .compare _ op left right, a => by
    have hleft := Expr.number_numbered left a
    have hright := Expr.number_numbered right (left.number a).2
    simpa [Expr.number, Expr.subterms, Expr.tag] using (hleft.append hright).cons
  | .call _ callee args, a => by
    have hcallee := Expr.number_numbered callee a
    have hargs := Expr.numberAll_numbered args (callee.number a).2
    simpa [Expr.number, Expr.subterms, Expr.tag] using (hcallee.append hargs).cons
  | .attribute _ value attr, a => (Expr.number_numbered value a).cons
  | .subscript _ value index, a => by
    have hvalue := Expr.number_numbered value a
    have hindex := Expr.number_numbered index (value.number a).2
    simpa [Expr.number, Expr.subterms, Expr.tag] using (hvalue.append hindex).cons

theorem Expr.numberAll_numbered : ∀ (es : List (Expr α)) (a : Label),
    Numbered a (Expr.numberAll es a).2 ((Expr.subtermsAll (Expr.numberAll es a).1).map Expr.tag)
  | [], a => .nil a
  | e :: rest, a => by
    have he := Expr.number_numbered e a
    have hrest := Expr.numberAll_numbered rest (e.number a).2
    simpa [Expr.numberAll, Expr.subtermsAll] using he.append hrest

theorem Expr.numberCond_numbered : ∀ (cond : Option (Expr α)) (a : Label),
    Numbered a (Expr.numberCond cond a).2 ((Expr.subtermsCond (Expr.numberCond cond a).1).map Expr.tag)
  | none, a => .nil a
  | some e, a => Expr.number_numbered e a

end

theorem Expr.number_nodes (e : Expr α) (a : Label) :
    Numbered a (e.number a).2 ((e.number a).1.nodes.map Node.tag) := by
  have h := e.number_numbered a
  rwa [Expr.nodes, List.map_map]

mutual

theorem Stmt.number_numbered : ∀ (s : Stmt α) (a : Label),
    Numbered a (s.number a).2 ((s.number a).1.nodes.map Node.tag)
  | .functionDef _ name params body, a => (Block.number_numbered body a).cons
  | .ret _ none, a | .pass _, a | .brk _, a | .cont _, a => (Numbered.nil a).cons
  | .ret _ (some value), a => (value.number_nodes a).cons
  | .assign _ target value, a => by
    have htarget := target.number_nodes a
    have hvalue := value.number_nodes (target.number a).2
    simpa [Stmt.number, Stmt.nodes, Node.tag, Stmt.tag] using (htarget.append hvalue).cons
  | .augAssign _ target op value, a => by
    have htarget := target.number_nodes a
    have hvalue := value.number_nodes (target.number a).2
    simpa [Stmt.number, Stmt.nodes, Node.tag, Stmt.tag] using (htarget.append hvalue).cons
  | .forLoop _ var source body, a => by
    have hsource := source.number_nodes a
    have hbody := Block.number_numbered body (source.number a).2
    simpa [Stmt.number, Stmt.nodes, Node.tag, Stmt.tag] using (hsource.append hbody).cons
  | .whileLoop _ test body, a => by
    have htest := test.number_nodes a
    have hbody := Block.number_numbered body (test.number a).2
    simpa [Stmt.number, Stmt.nodes, Node.tag, Stmt.tag] using (htest.append hbody).cons
  | .ifElse _ test body orelse, a => by
    have htest := test.number_nodes a
    have hbody := Block.number_numbered body (test.number a).2
    have horelse := Block.number_numbered orelse (Block.number body (test.number a).2).2
    simpa [Stmt.number, Stmt.nodes, Node.tag, Stmt.tag] using
      ((htest.append hbody).append horelse).cons
  | .expr _ value, a => (value.number_nodes a).cons

theorem Block.number_numbered : ∀ (body : List (Stmt α)) (a : Label),
    Numbered a (Block.number body a).2 ((Block.nodes (Block.number body a).1).map Node.tag)
  | [], a => .nil a
  | s :: rest, a => by
    have hs := Stmt.number_numbered s a
    have hrest := Block.number_numbered rest (s.number a).2
    simpa [Block.number, Block.nodes] using hs.append hrest

end

/-! ### Shapes -/

mutual

theorem Expr.number_shape : ∀ (e : Expr α) (a : Label),
    (e.number a).1.map (fun _ => ()) = e.map fun _ => ()
  | .name .., _ | .constant .., _ => rfl
  | .list _ items, a => by
    simp only [Expr.number, Expr.map, Expr.numberAll_shape items a]
  | .comprehension _ kind element var source cond, a => by
    simp only [Expr.number, Expr.map, Expr.number_shape element, Expr.number_shape source,
      Expr.numberCond_shape cond]
  | .binary _ op left right, a => by
    simp only [Expr.number, Expr.map, Expr.number_shape left, Expr.number_shape right]
  | .unary _ op operand, a => by
    simp only [Expr.number, Expr.map, Expr.number_shape operand]
  | .logic _ op left right, a => by
    simp only [Expr.number, Expr.map, Expr.number_shape left, Expr.number_shape right]
  | .compare _ op left right, a => by
    simp only [Expr.number, Expr.map, Expr.number_shape left, Expr.number_shape right]
  | .call _ callee args, a => by
    simp only [Expr.number, Expr.map, Expr.number_shape callee, Expr.numberAll_shape args]
  | .attribute _ value attr, a => by
    simp only [Expr.number, Expr.map, Expr.number_shape value]
  | .subscript _ value index, a => by
    simp only [Expr.number, Expr.map, Expr.number_shape value, Expr.number_shape index]

theorem Expr.numberAll_shape : ∀ (es : List (Expr α)) (a : Label),
    Expr.mapAll (fun _ => ()) (Expr.numberAll es a).1 = Expr.mapAll (fun _ => ()) es
  | [], _ => rfl
  | e :: rest, a => by
    simp only [Expr.numberAll, Expr.mapAll, Expr.number_shape e, Expr.numberAll_shape rest]

theorem Expr.numberCond_shape : ∀ (cond : Option (Expr α)) (a : Label),
    Expr.mapCond (fun _ => ()) (Expr.numberCond cond a).1 = Expr.mapCond (fun _ => ()) cond
  | none, _ => rfl
  | some e, a => by simp only [Expr.numberCond, Expr.mapCond, Expr.number_shape e]

end

mutual

theorem Stmt.number_shape : ∀ (s : Stmt α) (a : Label),
    (s.number a).1.map (fun _ => ()) = s.map fun _ => ()
  | .functionDef _ name params body, a => by
    simp only [Stmt.number, Stmt.map, Block.number_map body]
  | .ret _ none, _ | .pass _, _ | .brk _, _ | .cont _, _ => rfl
  | .ret _ (some value), a => by
    simp only [Stmt.number, Stmt.map, Option.map, Expr.number_shape]
  | .assign _ target value, a => by simp only [Stmt.number, Stmt.map, Expr.number_shape]
  | .augAssign _ target op value, a => by simp only [Stmt.number, Stmt.map, Expr.number_shape]
  | .forLoop _ var source body, a => by
    simp only [Stmt.number, Stmt.map, Expr.number_shape, Block.number_map body]
  | .whileLoop _ test body, a => by
    simp only [Stmt.number, Stmt.map, Expr.number_shape, Block.number_map body]
  | .ifElse _ test body orelse, a => by
    simp only [Stmt.number, Stmt.map, Expr.number_shape, Block.number_map body,
      Block.number_map orelse]
  | .expr _ value, a => by simp only [Stmt.number, Stmt.map, Expr.number_shape]

theorem Block.number_map : ∀ (body : List (Stmt α)) (a : Label),
    Block.map (fun _ => ()) (Block.number body a).1 = Block.map (fun _ => ()) body
  | [], _ => rfl
  | s :: rest, a => by
    simp only [Block.number, Block.map, Stmt.number_shape s, Block.number_map rest]

end

/-- Numbering leaves the shape of a program. -/
theorem Block.number_shape (body : Block α) (a : Label) :
    Block.shape (Block.number body a).1 = Block.shape body :=
  Block.number_map body a

/-- The same node with other tags. -/
def Node.map {β : Type} (f : α → β) : Node α → Node β
  | .stmt s => .stmt (s.map f)
  | .expr e => .expr (e.map f)

section

variable {β : Type}

mutual

theorem Expr.subterms_map (f : α → β) : ∀ e : Expr α,
    (e.map f).subterms = e.subterms.map (Expr.map f)
  | .name .. | .constant .. => rfl
  | .list _ items => by
    simp only [Expr.map, Expr.subterms, List.map_cons, Expr.subtermsAll_map f items]
  | .comprehension _ kind element var source cond => by
    simp only [Expr.map, Expr.subterms, List.map_cons, List.map_append, Expr.subterms_map f element,
      Expr.subterms_map f source, Expr.subtermsCond_map f cond]
  | .binary _ op left right => by
    simp only [Expr.map, Expr.subterms, List.map_cons, List.map_append, Expr.subterms_map f left,
      Expr.subterms_map f right]
  | .unary _ op operand => by
    simp only [Expr.map, Expr.subterms, List.map_cons, Expr.subterms_map f operand]
  | .logic _ op left right => by
    simp only [Expr.map, Expr.subterms, List.map_cons, List.map_append, Expr.subterms_map f left,
      Expr.subterms_map f right]
  | .compare _ op left right => by
    simp only [Expr.map, Expr.subterms, List.map_cons, List.map_append, Expr.subterms_map f left,
      Expr.subterms_map f right]
  | .call _ callee args => by
    simp only [Expr.map, Expr.subterms, List.map_cons, List.map_append, Expr.subterms_map f callee,
      Expr.subtermsAll_map f args]
  | .attribute _ value attr => by
    simp only [Expr.map, Expr.subterms, List.map_cons, Expr.subterms_map f value]
  | .subscript _ value index => by
    simp only [Expr.map, Expr.subterms, List.map_cons, List.map_append, Expr.subterms_map f value,
      Expr.subterms_map f index]

theorem Expr.subtermsAll_map (f : α → β) : ∀ es : List (Expr α),
    Expr.subtermsAll (Expr.mapAll f es) = (Expr.subtermsAll es).map (Expr.map f)
  | [] => rfl
  | e :: rest => by
    simp only [Expr.mapAll, Expr.subtermsAll, List.map_append, Expr.subterms_map f e,
      Expr.subtermsAll_map f rest]

theorem Expr.subtermsCond_map (f : α → β) : ∀ cond : Option (Expr α),
    Expr.subtermsCond (Expr.mapCond f cond) = (Expr.subtermsCond cond).map (Expr.map f)
  | none => rfl
  | some e => by simp only [Expr.mapCond, Expr.subtermsCond, Expr.subterms_map f e]

end

theorem Expr.nodes_map (f : α → β) (e : Expr α) : (e.map f).nodes = e.nodes.map (Node.map f) := by
  rw [Expr.nodes, Expr.nodes, Expr.subterms_map, List.map_map, List.map_map]
  rfl

mutual

theorem Stmt.nodes_map (f : α → β) : ∀ s : Stmt α, (s.map f).nodes = s.nodes.map (Node.map f)
  | .functionDef _ name params body => by
    simp only [Stmt.map, Stmt.nodes, List.map_cons, Node.map, Block.nodes_map f body]
  | .ret _ none | .pass _ | .brk _ | .cont _ => rfl
  | .ret _ (some value) => by
    simp only [Stmt.map, Option.map, Stmt.nodes, List.map_cons, Node.map, Expr.nodes_map]
  | .assign _ target value => by
    simp only [Stmt.map, Stmt.nodes, List.map_cons, List.map_append, Node.map, Expr.nodes_map]
  | .augAssign _ target op value => by
    simp only [Stmt.map, Stmt.nodes, List.map_cons, List.map_append, Node.map, Expr.nodes_map]
  | .forLoop _ var source body => by
    simp only [Stmt.map, Stmt.nodes, List.map_cons, List.map_append, Node.map, Expr.nodes_map,
      Block.nodes_map f body]
  | .whileLoop _ test body => by
    simp only [Stmt.map, Stmt.nodes, List.map_cons, List.map_append, Node.map, Expr.nodes_map,
      Block.nodes_map f body]
  | .ifElse _ test body orelse => by
    simp only [Stmt.map, Stmt.nodes, List.map_cons, List.map_append, Node.map, Expr.nodes_map,
      Block.nodes_map f body, Block.nodes_map f orelse]
  | .expr _ value => by
    simp only [Stmt.map, Stmt.nodes, List.map_cons, Node.map, Expr.nodes_map]

/-- The nodes of a program with other tags. -/
theorem Block.nodes_map (f : α → β) : ∀ body : List (Stmt α),
    Block.nodes (Block.map f body) = (Block.nodes body).map (Node.map f)
  | [] => rfl
  | s :: rest => by
    simp only [Block.map, Block.nodes, List.map_append, Stmt.nodes_map f s, Block.nodes_map f rest]

end

end

end ProgramBreeding

import Mathlib.Data.List.Perm.Subperm
import ProgramBreeding.Proofs.Tree.Numbering
import ProgramBreeding.Proofs.Tree.Parts

/-!
# The labels of an edited program

Replacing the node of a label takes away the labels of the node and brings in those of the
new one.  All other labels stay.

## Main definitions

* `Splices` — lists of labels made of fixed labels and copies of the labels of what is put in.
* `Block.splices_substituteExpr`, `Block.splices_substituteStmt` — the labels of a program as a
  function of the node that is put in.
* `Block.substituteExpr_self`, `Block.substituteStmt_self` — a node put in its own place.
-/

namespace ProgramBreeding

/-! ### Lists of labels -/

/-- The labels of what is made of something: fixed ones, and a number of times those of the thing
itself. -/
def Splices {β : Type} (own labels : β → List Label) : Prop :=
  ∃ (base : List Label) (copies : Nat), ∀ b,
    (labels b).Perm (base ++ (List.replicate copies (own b)).flatten)

namespace Splices

variable {β : Type} {own f g : β → List Label}

theorem const (base : List Label) : Splices own fun _ => base :=
  ⟨base, 0, fun _ => by simp⟩

theorem self : Splices own own :=
  ⟨[], 1, fun _ => by simp⟩

theorem append (hf : Splices own f) (hg : Splices own g) : Splices own fun b => f b ++ g b := by
  obtain ⟨base, copies, hf⟩ := hf
  obtain ⟨base', copies', hg⟩ := hg
  refine ⟨base ++ base', copies + copies', fun b => ((hf b).append (hg b)).trans ?_⟩
  rw [← List.replicate_append_replicate, List.flatten_append, List.append_assoc, List.append_assoc]
  refine List.Perm.append_left _ ?_
  rw [← List.append_assoc, ← List.append_assoc]
  exact List.perm_append_comm.append_right _

theorem cons (l : Label) (hf : Splices own f) : Splices own fun b => l :: f b :=
  (const [l]).append hf

theorem congr (hf : Splices own f) (h : ∀ b, g b = f b) : Splices own g := by
  rwa [show g = f from funext h]

variable {old new : β}

/-- In a list without duplicates there is at most one copy. -/
theorem copies_le_one {base labels : List Label} {copies : Nat} (hne : labels ≠ [])
    (hnodup : (base ++ (List.replicate copies labels).flatten).Nodup) : copies ≤ 1 := by
  obtain ⟨l, hl⟩ := List.exists_mem_of_ne_nil _ hne
  match copies with
  | 0 | 1 => omega
  | copies + 2 =>
    have hcopies := (List.nodup_append.mp hnodup).2.1
    rw [List.replicate_succ, List.replicate_succ, List.flatten_cons, List.flatten_cons] at hcopies
    exact absurd rfl ((List.nodup_append.mp hcopies).2.2 l hl l (List.mem_append_left _ hl))

/-- The labels after an edit are old ones and those of what was put in. -/
theorem subperm (h : Splices own f) (old new : β) (hnodup : (f old).Nodup) (hne : own old ≠ []) :
    (f new).Subperm (f old ++ own new) := by
  obtain ⟨base, copies, h⟩ := h
  have hcopies := copies_le_one hne ((h old).nodup hnodup)
  have hbase : base.Subperm (f old) :=
    (List.sublist_append_left base _).subperm.trans (h old).symm.subperm
  refine (h new).subperm.trans ?_
  obtain rfl | rfl : copies = 0 ∨ copies = 1 := by omega
  · simpa using hbase.trans (List.sublist_append_left _ (own new)).subperm
  · simpa using hbase.append (List.Subperm.refl (own new))

/-- Labels that an edit takes away make room for those of what was put in. -/
theorem perm (h : Splices own f) (old new : β) (hnodup : (f old).Nodup) {l : Label} (hold : l ∈ own old)
    (hmem : l ∈ f old) (hgone : l ∉ f new) : (f new ++ own old).Perm (f old ++ own new) := by
  obtain ⟨base, copies, h⟩ := h
  have hcopies := copies_le_one (List.ne_nil_of_mem hold) ((h old).nodup hnodup)
  obtain rfl | rfl : copies = 0 ∨ copies = 1 := by omega
  · have hbase : l ∈ base := by simpa using (h old).mem_iff.mp hmem
    exact absurd ((h new).mem_iff.mpr (by simpa using hbase)) hgone
  · have hnew : (f new).Perm (base ++ own new) := by simpa using h new
    have hold : (f old).Perm (base ++ own old) := by simpa using h old
    refine (hnew.append_right _).trans ((?_ : List.Perm _ _).trans (hold.symm.append_right _))
    rw [List.append_assoc, List.append_assoc]
    exact List.perm_append_comm.append_left _

end Splices

/-! ### Expressions -/

section

variable {label : Label}

/-- The labels of an expression and those below it. -/
def Expr.labels (e : Expr Label) : List Label := e.subterms.map Expr.tag

theorem Expr.labels_ne_nil (e : Expr Label) : e.labels ≠ [] :=
  List.ne_nil_of_mem (List.mem_map_of_mem e.self_mem_subterms)

theorem Expr.splices_of_below {e : Expr Label}
    (h : Splices Expr.labels fun new => (Expr.substituteBelow label new e).labels) :
    Splices Expr.labels fun new => (Expr.substitute label new e).labels := by
  by_cases htag : e.tag = label
  · exact Splices.self.congr fun new => by rw [Expr.substitute_eq, if_pos htag]
  · exact h.congr fun new => by rw [Expr.substitute_eq, if_neg htag]

mutual

/-- By induction on the expression: the labels of its parts one after the other. -/
theorem Expr.splices_substitute (label : Label) : ∀ e : Expr Label,
    Splices Expr.labels fun new => (Expr.substitute label new e).labels
  | .name l id => Expr.splices_of_below (.const [l])
  | .constant l value => Expr.splices_of_below (.const [l])
  | .list l items => Expr.splices_of_below ((Expr.splices_substituteAll label items).cons l)
  | .comprehension l kind element var source cond =>
    Expr.splices_of_below <|
      ((((Expr.splices_substitute label element).append (Expr.splices_substitute label source)).append
        (Expr.splices_substituteCond label cond)).cons l).congr fun new => by
          simp [Expr.substituteBelow, Expr.labels, Expr.subterms, Expr.tag]
  | .binary l op left right =>
    Expr.splices_of_below <|
      (((Expr.splices_substitute label left).append (Expr.splices_substitute label right)).cons l).congr
        fun new => by simp [Expr.substituteBelow, Expr.labels, Expr.subterms, Expr.tag]
  | .unary l op operand => Expr.splices_of_below ((Expr.splices_substitute label operand).cons l)
  | .logic l op left right =>
    Expr.splices_of_below <|
      (((Expr.splices_substitute label left).append (Expr.splices_substitute label right)).cons l).congr
        fun new => by simp [Expr.substituteBelow, Expr.labels, Expr.subterms, Expr.tag]
  | .compare l op left right =>
    Expr.splices_of_below <|
      (((Expr.splices_substitute label left).append (Expr.splices_substitute label right)).cons l).congr
        fun new => by simp [Expr.substituteBelow, Expr.labels, Expr.subterms, Expr.tag]
  | .call l callee args =>
    Expr.splices_of_below <|
      (((Expr.splices_substitute label callee).append (Expr.splices_substituteAll label args)).cons l).congr
        fun new => by simp [Expr.substituteBelow, Expr.labels, Expr.subterms, Expr.tag]
  | .attribute l value attr => Expr.splices_of_below ((Expr.splices_substitute label value).cons l)
  | .subscript l value index =>
    Expr.splices_of_below <|
      (((Expr.splices_substitute label value).append (Expr.splices_substitute label index)).cons l).congr
        fun new => by simp [Expr.substituteBelow, Expr.labels, Expr.subterms, Expr.tag]

theorem Expr.splices_substituteAll (label : Label) : ∀ es : List (Expr Label),
    Splices Expr.labels fun new => (Expr.subtermsAll (Expr.substituteAll label new es)).map Expr.tag
  | [] => .const []
  | e :: rest =>
    ((Expr.splices_substitute label e).append (Expr.splices_substituteAll label rest)).congr fun new => by
      simp [Expr.substituteAll, Expr.labels, Expr.subtermsAll]

theorem Expr.splices_substituteCond (label : Label) : ∀ cond : Option (Expr Label),
    Splices Expr.labels fun new => (Expr.subtermsCond (Expr.substituteCond label new cond)).map Expr.tag
  | none => .const []
  | some e => Expr.splices_substitute label e

end

theorem Expr.map_tag_nodes (e : Expr Label) : e.nodes.map Node.tag = e.labels := by
  rw [Expr.nodes, List.map_map]
  rfl

mutual

theorem Stmt.splices_substituteExpr (label : Label) : ∀ s : Stmt Label,
    Splices Expr.labels fun new => (s.mapExprs (Expr.substitute label new)).nodes.map Node.tag
  | .functionDef l name params body => (Block.splices_substituteExpr label body).cons l
  | .ret l none => .const [l]
  | .ret l (some value) => ((Expr.splices_substitute label value).cons l).congr fun new => by
    simp [Stmt.mapExprs, Stmt.nodes, Node.tag, Stmt.tag, Expr.map_tag_nodes]
  | .assign l target value =>
    (((Expr.splices_substitute label target).append (Expr.splices_substitute label value)).cons l).congr fun new => by
      simp [Stmt.mapExprs, Stmt.nodes, Node.tag, Stmt.tag, Expr.map_tag_nodes]
  | .augAssign l target op value =>
    (((Expr.splices_substitute label target).append (Expr.splices_substitute label value)).cons l).congr fun new => by
      simp [Stmt.mapExprs, Stmt.nodes, Node.tag, Stmt.tag, Expr.map_tag_nodes]
  | .forLoop l var source body =>
    (((Expr.splices_substitute label source).append (Block.splices_substituteExpr label body)).cons l).congr
      fun new => by
        simp [Block.substituteExpr, Stmt.mapExprs, Stmt.nodes, Node.tag, Stmt.tag, Expr.map_tag_nodes]
  | .whileLoop l test body =>
    (((Expr.splices_substitute label test).append (Block.splices_substituteExpr label body)).cons l).congr
      fun new => by
        simp [Block.substituteExpr, Stmt.mapExprs, Stmt.nodes, Node.tag, Stmt.tag, Expr.map_tag_nodes]
  | .ifElse l test body orelse =>
    ((((Expr.splices_substitute label test).append (Block.splices_substituteExpr label body)).append
      (Block.splices_substituteExpr label orelse)).cons l).congr
        fun new => by
        simp [Block.substituteExpr, Stmt.mapExprs, Stmt.nodes, Node.tag, Stmt.tag, Expr.map_tag_nodes]
  | .expr l value => ((Expr.splices_substitute label value).cons l).congr fun new => by
    simp [Stmt.mapExprs, Stmt.nodes, Node.tag, Stmt.tag, Expr.map_tag_nodes]
  | .pass l | .brk l | .cont l => .const [l]

theorem Block.splices_substituteExpr (label : Label) : ∀ body : List (Stmt Label),
    Splices Expr.labels fun new => (Block.nodes (Block.substituteExpr label new body)).map Node.tag
  | [] => .const []
  | s :: rest =>
    ((Stmt.splices_substituteExpr label s).append (Block.splices_substituteExpr label rest)).congr fun new => by
      simp [Block.substituteExpr, Block.mapExprs, Block.nodes]

end

/-! ### Statements -/

/-- The labels of a statement and those below it. -/
def Stmt.labels (s : Stmt Label) : List Label := s.nodes.map Node.tag

theorem Stmt.labels_ne_nil (s : Stmt Label) : s.labels ≠ [] :=
  List.ne_nil_of_mem (List.mem_map_of_mem s.self_mem_nodes)

theorem Stmt.splices_of_below {s : Stmt Label}
    (h : Splices Stmt.labels fun new => (Stmt.substituteBelow label new s).labels) :
    Splices Stmt.labels fun new => (Stmt.substituteStmt label new s).labels := by
  by_cases htag : s.tag = label
  · exact Splices.self.congr fun new => by rw [Stmt.substituteStmt_eq, if_pos htag]
  · exact h.congr fun new => by rw [Stmt.substituteStmt_eq, if_neg htag]

mutual

theorem Stmt.splices_substituteStmt (label : Label) : ∀ s : Stmt Label,
    Splices Stmt.labels fun new => (Stmt.substituteStmt label new s).labels
  | .functionDef l name params body => Stmt.splices_of_below ((Block.splices_substituteStmt label body).cons l)
  | .forLoop l var source body =>
    Stmt.splices_of_below <|
      (((Splices.const source.labels).append (Block.splices_substituteStmt label body)).cons l).congr
        fun new => by
          simp [Stmt.substituteBelow, Stmt.labels, Stmt.nodes, Node.tag, Stmt.tag, Expr.map_tag_nodes]
  | .whileLoop l test body =>
    Stmt.splices_of_below <|
      (((Splices.const test.labels).append (Block.splices_substituteStmt label body)).cons l).congr
        fun new => by
          simp [Stmt.substituteBelow, Stmt.labels, Stmt.nodes, Node.tag, Stmt.tag, Expr.map_tag_nodes]
  | .ifElse l test body orelse =>
    Stmt.splices_of_below <|
      ((((Splices.const test.labels).append (Block.splices_substituteStmt label body)).append
        (Block.splices_substituteStmt label orelse)).cons l).congr fun new => by
          simp [Stmt.substituteBelow, Stmt.labels, Stmt.nodes, Node.tag, Stmt.tag, Expr.map_tag_nodes]
  | .ret .. | .assign .. | .augAssign .. | .expr .. | .pass _ | .brk _ | .cont _ =>
    Stmt.splices_of_below (.const (Stmt.labels _))

theorem Block.splices_substituteStmt (label : Label) : ∀ body : List (Stmt Label),
    Splices Stmt.labels fun new => (Block.nodes (Block.substituteStmt label new body)).map Node.tag
  | [] => .const []
  | s :: rest =>
    ((Stmt.splices_substituteStmt label s).append (Block.splices_substituteStmt label rest)).congr fun new => by
      simp [Block.substituteStmt, Block.nodes, Stmt.labels]

end

/-! ### Nodes put in their own places -/

section

variable {old : Expr Label}

theorem Expr.substitute_self_of_below {e : Expr Label} (h : e.tag = label → e = old)
    (hbelow : Expr.substituteBelow label old e = e) : Expr.substitute label old e = e := by
  rw [Expr.substitute_eq]
  split
  · rename_i htag
    exact (h htag).symm
  · exact hbelow

mutual

/-- By induction on the expression, whose only part with the label is the one put in. -/
theorem Expr.substitute_self : ∀ {e : Expr Label},
    (∀ part ∈ e.subterms, part.tag = label → part = old) → Expr.substitute label old e = e
  | .name .., h | .constant .., h =>
    Expr.substitute_self_of_below (h _ (List.mem_cons_self ..)) rfl
  | .list .., h =>
    Expr.substitute_self_of_below (h _ (List.mem_cons_self ..)) <| by
      rw [Expr.substituteBelow, Expr.substituteAll_self fun part hpart => h part (.tail _ hpart)]
  | .comprehension .., h =>
    Expr.substitute_self_of_below (h _ (List.mem_cons_self ..)) <| by
      rw [Expr.substituteBelow,
        Expr.substitute_self fun part hpart => h part (by simp [Expr.subterms, hpart]),
        Expr.substitute_self fun part hpart => h part (by simp [Expr.subterms, hpart]),
        Expr.substituteCond_self fun part hpart => h part (by simp [Expr.subterms, hpart])]
  | .unary .., h | .attribute .., h =>
    Expr.substitute_self_of_below (h _ (List.mem_cons_self ..)) <| by
      rw [Expr.substituteBelow, Expr.substitute_self fun part hpart => h part (.tail _ hpart)]
  | .binary .., h | .logic .., h | .compare .., h | .subscript .., h =>
    Expr.substitute_self_of_below (h _ (List.mem_cons_self ..)) <| by
      rw [Expr.substituteBelow,
        Expr.substitute_self fun part hpart => h part (by simp [Expr.subterms, hpart]),
        Expr.substitute_self fun part hpart => h part (by simp [Expr.subterms, hpart])]
  | .call .., h =>
    Expr.substitute_self_of_below (h _ (List.mem_cons_self ..)) <| by
      rw [Expr.substituteBelow,
        Expr.substitute_self fun part hpart => h part (by simp [Expr.subterms, hpart]),
        Expr.substituteAll_self fun part hpart => h part (by simp [Expr.subterms, hpart])]

theorem Expr.substituteAll_self : ∀ {es : List (Expr Label)},
    (∀ part ∈ Expr.subtermsAll es, part.tag = label → part = old) → Expr.substituteAll label old es = es
  | [], _ => rfl
  | _ :: _, h => by
    rw [Expr.substituteAll, Expr.substitute_self fun part hpart => h part (List.mem_append_left _ hpart),
      Expr.substituteAll_self fun part hpart => h part (List.mem_append_right _ hpart)]

theorem Expr.substituteCond_self : ∀ {cond : Option (Expr Label)},
    (∀ part ∈ Expr.subtermsCond cond, part.tag = label → part = old) →
      Expr.substituteCond label old cond = cond
  | none, _ => rfl
  | some _, h => by rw [Expr.substituteCond, Expr.substitute_self h]

end

theorem Expr.substitute_self_of_nodes {e : Expr Label} {nodes : List (Node Label)}
    (h : ∀ part, .expr part ∈ nodes → part.tag = label → part = old)
    (he : ∀ node ∈ e.nodes, node ∈ nodes) : Expr.substitute label old e = e :=
  Expr.substitute_self fun part hpart => h part (he _ (List.mem_map_of_mem hpart))

mutual

theorem Stmt.substituteExpr_self : ∀ {s : Stmt Label},
    (∀ part, .expr part ∈ s.nodes → part.tag = label → part = old) →
      s.mapExprs (Expr.substitute label old) = s
  | .functionDef .., h => by
    rw [Stmt.mapExprs, Block.mapExprs_self fun part hpart => h part (.tail _ hpart)]
  | .ret _ none, _ | .pass _, _ | .brk _, _ | .cont _, _ => rfl
  | .ret _ (some _), h | .expr .., h => by
    rw [Stmt.mapExprs]
    exact congrArg _ (by simp [Expr.substitute_self_of_nodes h fun node hn => .tail _ hn])
  | .assign .., h | .augAssign .., h => by
    rw [Stmt.mapExprs,
      Expr.substitute_self_of_nodes h fun node hn => by simp [Stmt.nodes, hn],
      Expr.substitute_self_of_nodes h fun node hn => by simp [Stmt.nodes, hn]]
  | .forLoop .., h | .whileLoop .., h => by
    rw [Stmt.mapExprs,
      Expr.substitute_self_of_nodes h fun node hn => by simp [Stmt.nodes, hn],
      Block.mapExprs_self fun part hpart => h part (by simp [Stmt.nodes, hpart])]
  | .ifElse .., h => by
    rw [Stmt.mapExprs,
      Expr.substitute_self_of_nodes h fun node hn => by simp [Stmt.nodes, hn],
      Block.mapExprs_self fun part hpart => h part (by simp [Stmt.nodes, hpart]),
      Block.mapExprs_self fun part hpart => h part (by simp [Stmt.nodes, hpart])]

theorem Block.mapExprs_self : ∀ {body : List (Stmt Label)},
    (∀ part, .expr part ∈ Block.nodes body → part.tag = label → part = old) →
      Block.mapExprs (Expr.substitute label old) body = body
  | [], _ => rfl
  | _ :: _, h => by
    rw [Block.mapExprs, Stmt.substituteExpr_self fun part hpart => h part (List.mem_append_left _ hpart),
      Block.mapExprs_self fun part hpart => h part (List.mem_append_right _ hpart)]

end

end

section

variable {old : Stmt Label}

theorem Stmt.substituteStmt_self_of_below {s : Stmt Label} (h : s.tag = label → s = old)
    (hbelow : Stmt.substituteBelow label old s = s) : Stmt.substituteStmt label old s = s := by
  rw [Stmt.substituteStmt_eq]
  split
  · rename_i htag
    exact (h htag).symm
  · exact hbelow

mutual

/-- By induction on the statement, whose only part with the label is the one put in. -/
theorem Stmt.substituteStmt_self : ∀ {s : Stmt Label},
    (∀ part, .stmt part ∈ s.nodes → part.tag = label → part = old) → Stmt.substituteStmt label old s = s
  | .functionDef .., h =>
    Stmt.substituteStmt_self_of_below (h _ (List.mem_cons_self ..)) <| by
      rw [Stmt.substituteBelow, Block.substituteStmt_self fun part hpart => h part (.tail _ hpart)]
  | .forLoop .., h | .whileLoop .., h =>
    Stmt.substituteStmt_self_of_below (h _ (List.mem_cons_self ..)) <| by
      rw [Stmt.substituteBelow,
        Block.substituteStmt_self fun part hpart => h part (by simp [Stmt.nodes, hpart])]
  | .ifElse .., h =>
    Stmt.substituteStmt_self_of_below (h _ (List.mem_cons_self ..)) <| by
      rw [Stmt.substituteBelow,
        Block.substituteStmt_self fun part hpart => h part (by simp [Stmt.nodes, hpart]),
        Block.substituteStmt_self fun part hpart => h part (by simp [Stmt.nodes, hpart])]
  | .ret .., h | .assign .., h | .augAssign .., h | .expr .., h | .pass _, h | .brk _, h | .cont _, h =>
    Stmt.substituteStmt_self_of_below (h _ (Stmt.self_mem_nodes _)) rfl

theorem Block.substituteStmt_self : ∀ {body : List (Stmt Label)},
    (∀ part, .stmt part ∈ Block.nodes body → part.tag = label → part = old) →
      Block.substituteStmt label old body = body
  | [], _ => rfl
  | _ :: _, h => by
    rw [Block.substituteStmt,
      Stmt.substituteStmt_self fun part hpart => h part (List.mem_append_left _ hpart),
      Block.substituteStmt_self fun part hpart => h part (List.mem_append_right _ hpart)]

end

end

end

end ProgramBreeding

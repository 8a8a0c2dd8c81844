import Mathlib.Data.Multiset.Basic
import ProgramBreeding.Proofs.Tree.Path
import ProgramBreeding.Proofs.Tree.Splicing
import ProgramBreeding.Proofs.Tree.Writable

/-!
# Well-formed trees

In a well-formed tree every label belongs to one node only, and every node stands in one place
only.  An edit that brings in fresh labels keeps it so, and the nodes that it leaves in the tree
still say what they said.

## Main definitions

* `Node.children`, `Block.slots_perm` — what stands in the slots of a node.
* `Tree.WellFormed` — trees whose labels denote nodes.
* `Node.content`, `Node.Persists` — what a node says itself, and that it still does.
* `Tree.KeptIn` — the nodes of a tree in a tree that is made of it.
* `Tree.refocus_labels`, `Tree.refocus_keptIn` — the block around a statement replaced.
* `Tree.replace_labels`, `Tree.replace_keptIn` — grafts.
-/

namespace ProgramBreeding

section

variable {α : Type}

/-! ### Slots -/

/-- The expressions in the slots of an expression. -/
def Expr.children : Expr α → List (Expr α)
  | .name .. | .constant .. => []
  | .list _ items => items
  | .comprehension _ _ element _ source cond => element :: source :: cond.toList
  | .binary _ _ left right | .logic _ _ left right | .compare _ _ left right => [left, right]
  | .unary _ _ operand => [operand]
  | .call _ callee args => callee :: args
  | .attribute _ value _ => [value]
  | .subscript _ value index => [value, index]

/-- The nodes in the slots of a node: statements in blocks, expressions everywhere else. -/
def Node.children : Node α → List (Node α)
  | .expr e => e.children.map .expr
  | .stmt (.functionDef _ _ _ body) => body.map .stmt
  | .stmt (.ret _ value) => value.toList.map .expr
  | .stmt (.assign _ target value) => [.expr target, .expr value]
  | .stmt (.augAssign _ target _ value) => [.expr target, .expr value]
  | .stmt (.forLoop _ _ source body) => .expr source :: body.map .stmt
  | .stmt (.whileLoop _ test body) => .expr test :: body.map .stmt
  | .stmt (.ifElse _ test body orelse) => .expr test :: (body.map .stmt ++ orelse.map .stmt)
  | .stmt (.expr _ value) => [.expr value]
  | .stmt (.pass _) | .stmt (.brk _) | .stmt (.cont _) => []

open Classical in
mutual

/-- By induction on the expression: it and what stands in the slots below it are its parts. -/
theorem Expr.count_children (e' : Expr α) : ∀ e : Expr α,
    (e.subterms.flatMap Expr.children).count e' + [e].count e' = e.subterms.count e'
  | .name .. | .constant .. => by simp [Expr.subterms, Expr.children]
  | .list _ items => by
    have hitems := Expr.count_childrenAll e' items
    simp only [Expr.subterms, Expr.children, List.flatMap_cons, List.count_append, List.count_cons,
      List.count_nil] at hitems ⊢
    omega
  | .comprehension _ _ element _ source cond => by
    have helement := Expr.count_children e' element
    have hsource := Expr.count_children e' source
    have hcond := Expr.count_childrenCond e' cond
    simp only [Expr.subterms, Expr.children, List.flatMap_cons, List.flatMap_append, List.count_append,
      List.count_cons, List.count_nil] at helement hsource hcond ⊢
    omega
  | .binary _ _ left right | .logic _ _ left right | .compare _ _ left right
  | .subscript _ left right => by
    have hleft := Expr.count_children e' left
    have hright := Expr.count_children e' right
    simp only [Expr.subterms, Expr.children, List.flatMap_cons, List.flatMap_append, List.count_append,
      List.count_cons, List.count_nil] at hleft hright ⊢
    omega
  | .unary _ _ operand | .attribute _ operand _ => by
    have hoperand := Expr.count_children e' operand
    simp only [Expr.subterms, Expr.children, List.flatMap_cons, List.count_append, List.count_cons,
      List.count_nil] at hoperand ⊢
    omega
  | .call _ callee args => by
    have hcallee := Expr.count_children e' callee
    have hargs := Expr.count_childrenAll e' args
    simp only [Expr.subterms, Expr.children, List.flatMap_cons, List.flatMap_append, List.count_append,
      List.count_cons, List.count_nil] at hcallee hargs ⊢
    omega

theorem Expr.count_childrenAll (e' : Expr α) : ∀ es : List (Expr α),
    ((Expr.subtermsAll es).flatMap Expr.children).count e' + es.count e' = (Expr.subtermsAll es).count e'
  | [] => rfl
  | e :: rest => by
    have he := Expr.count_children e' e
    have hrest := Expr.count_childrenAll e' rest
    simp only [Expr.subtermsAll, List.flatMap_append, List.count_append, List.count_cons,
      List.count_nil] at he hrest ⊢
    omega

theorem Expr.count_childrenCond (e' : Expr α) : ∀ cond : Option (Expr α),
    ((Expr.subtermsCond cond).flatMap Expr.children).count e' + cond.toList.count e' =
      (Expr.subtermsCond cond).count e'
  | none => rfl
  | some e => Expr.count_children e' e

end

open Classical in
theorem Expr.count_children_nodes (node : Node α) (e : Expr α) :
    (e.nodes.flatMap Node.children).count node + [Node.expr e].count node = e.nodes.count node := by
  have hperm : (e :: e.subterms.flatMap Expr.children).Perm e.subterms := by
    refine List.perm_iff_count.mpr fun e' => ?_
    have := Expr.count_children e' e
    simp only [List.count_cons, List.count_nil] at this ⊢
    omega
  have hnodes : e.nodes.flatMap Node.children = (e.subterms.flatMap Expr.children).map Node.expr := by
    rw [Expr.nodes, List.flatMap_map, List.map_flatMap]
    rfl
  have := (hperm.map Node.expr).count_eq node
  rw [List.map_cons, ← hnodes, List.count_cons] at this
  rwa [List.count_cons, List.count_nil, Nat.zero_add]

open Classical in
mutual

theorem Stmt.count_children (node : Node α) : ∀ s : Stmt α,
    (s.nodes.flatMap Node.children).count node + [Node.stmt s].count node = s.nodes.count node
  | .functionDef _ _ _ body => by
    have hbody := Block.count_children node body
    simp only [Stmt.nodes, Node.children, List.flatMap_cons, List.count_append, List.count_cons,
      List.count_nil] at hbody ⊢
    omega
  | .ret _ none | .pass _ | .brk _ | .cont _ => by simp [Stmt.nodes, Node.children]
  | .ret _ (some value) | .expr _ value => by
    have hvalue := Expr.count_children_nodes node value
    simp only [Stmt.nodes, Node.children, List.flatMap_cons, List.count_append, List.count_cons,
      List.count_nil, Option.toList, List.map_cons, List.map_nil] at hvalue ⊢
    omega
  | .assign _ target value | .augAssign _ target _ value => by
    have htarget := Expr.count_children_nodes node target
    have hvalue := Expr.count_children_nodes node value
    simp only [Stmt.nodes, Node.children, List.flatMap_cons, List.flatMap_append, List.count_append,
      List.count_cons, List.count_nil] at htarget hvalue ⊢
    omega
  | .forLoop _ _ source body | .whileLoop _ source body => by
    have hsource := Expr.count_children_nodes node source
    have hbody := Block.count_children node body
    simp only [Stmt.nodes, Node.children, List.flatMap_cons, List.flatMap_append, List.count_append,
      List.count_cons, List.count_nil] at hsource hbody ⊢
    omega
  | .ifElse _ test body orelse => by
    have htest := Expr.count_children_nodes node test
    have hbody := Block.count_children node body
    have horelse := Block.count_children node orelse
    simp only [Stmt.nodes, Node.children, List.flatMap_cons, List.flatMap_append, List.count_append,
      List.count_cons, List.count_nil] at htest hbody horelse ⊢
    omega

theorem Block.count_children (node : Node α) : ∀ body : List (Stmt α),
    ((Block.nodes body).flatMap Node.children).count node + (body.map Node.stmt).count node =
      (Block.nodes body).count node
  | [] => rfl
  | s :: rest => by
    have hs := Stmt.count_children node s
    have hrest := Block.count_children node rest
    simp only [Block.nodes, List.flatMap_append, List.map_cons, List.count_append, List.count_cons,
      List.count_nil] at hs hrest ⊢
    omega

end

/-- What stands in the slots of a module and of its nodes are the nodes, each once. -/
theorem Block.slots_perm (body : Block α) :
    (List.map Node.stmt body ++ (Block.nodes body).flatMap Node.children).Perm (Block.nodes body) := by
  classical
  refine List.perm_iff_count.mpr fun node => ?_
  have := Block.count_children node body
  rw [List.count_append]
  omega

/-! ### What a node says itself -/

/-- What a node says itself: its kind with its names, its operator and its literal. -/
inductive Content where
  | functionDef (name : String) (params : List String)
  | ret
  | assign
  | augAssign (op : BinaryOp)
  | forLoop (var : String)
  | whileLoop
  | ifElse
  | exprStmt
  | pass
  | brk
  | cont
  | name (id : String)
  | constant (value : Literal)
  | list
  | comprehension (kind : ComprehensionKind) (var : String)
  | binary (op : BinaryOp)
  | unary (op : UnaryOp)
  | logic (op : LogicOp)
  | compare (op : CompareOp)
  | call
  | attribute (attr : String)
  | subscript

/-- What an expression says itself. -/
def Expr.content : Expr α → Content
  | .name _ id => .name id
  | .constant _ value => .constant value
  | .list .. => .list
  | .comprehension _ kind _ var _ _ => .comprehension kind var
  | .binary _ op _ _ => .binary op
  | .unary _ op _ => .unary op
  | .logic _ op _ _ => .logic op
  | .compare _ op _ _ => .compare op
  | .call .. => .call
  | .attribute _ _ attr => .attribute attr
  | .subscript .. => .subscript

/-- What a statement says itself. -/
def Stmt.content : Stmt α → Content
  | .functionDef _ name params _ => .functionDef name params
  | .ret .. => .ret
  | .assign .. => .assign
  | .augAssign _ _ op _ => .augAssign op
  | .forLoop _ var _ _ => .forLoop var
  | .whileLoop .. => .whileLoop
  | .ifElse .. => .ifElse
  | .expr .. => .exprStmt
  | .pass _ => .pass
  | .brk _ => .brk
  | .cont _ => .cont

/-- What a node says itself. -/
def Node.content : Node α → Content
  | .stmt s => s.content
  | .expr e => e.content

/-- Whether a statement is a function, a loop or a conditional whose body is empty. -/
def Stmt.hasEmptyBody : Stmt α → Bool
  | .functionDef _ _ _ body | .forLoop _ _ _ body | .whileLoop _ _ body | .ifElse _ _ body _ =>
    List.isEmpty body
  | _ => false

/-- Whether a node is a statement whose body is empty. -/
def Node.hasEmptyBody : Node α → Bool
  | .stmt s => s.hasEmptyBody
  | .expr _ => false

end

/-- A node still says what it said, and its body has not become empty. -/
structure Node.Persists (old new : Node Label) : Prop where
  tag : new.tag = old.tag
  category : new.category = old.category
  content : new.content = old.content
  body : new.hasEmptyBody = true → old.hasEmptyBody = true

namespace Node.Persists

theorem refl (node : Node Label) : node.Persists node := ⟨rfl, rfl, rfl, id⟩

theorem trans {a b c : Node Label} (h : a.Persists b) (h' : b.Persists c) : a.Persists c :=
  ⟨h'.tag.trans h.tag, h'.category.trans h.category, h'.content.trans h.content, h.body ∘ h'.body⟩

end Node.Persists

/-! ### Well-formed trees -/

/-- Trees whose labels denote nodes: all are below the next free one, no two nodes have the same one
or that of the module, the slots of the module and of the nodes hold the nodes, each once, and what is
assigned to can be assigned to. -/
structure Tree.WellFormed (t : Tree) : Prop where
  inside : ∀ l ∈ t.root :: t.nodes.map Node.tag, l < t.next
  distinct : (t.root :: t.nodes.map Node.tag).Nodup
  slots : (List.map Node.stmt t.body ++ t.nodes.flatMap Node.children).Perm t.nodes
  targets : ∀ s target, .stmt s ∈ t.nodes → s.target? = some target → target.isAssignable = true

/-- The nodes of a tree in a tree that is made of it: a node with an old label still says what it
said. -/
structure Tree.KeptIn (t t' : Tree) : Prop where
  lineage : t'.lineage = t.lineage
  root : t'.root = t.root
  next : t.next ≤ t'.next
  nodes : ∀ new ∈ t'.nodes, new.tag < t.next → ∃ old ∈ t.nodes, old.Persists new

namespace Tree.KeptIn

theorem refl (t : Tree) : t.KeptIn t :=
  ⟨rfl, rfl, Nat.le_refl _, fun node hnode _ => ⟨node, hnode, .refl node⟩⟩

theorem trans {a b c : Tree} (h : a.KeptIn b) (h' : b.KeptIn c) : a.KeptIn c where
  lineage := h'.lineage.trans h.lineage
  root := h'.root.trans h.root
  next := Nat.le_trans h.next h'.next
  nodes new hnew hlt := by
    obtain ⟨middle, hmiddle, hpersists⟩ := h'.nodes new hnew (Nat.lt_of_lt_of_le hlt h.next)
    obtain ⟨old, hold, hpersists'⟩ := h.nodes middle hmiddle (hpersists.tag ▸ hlt)
    exact ⟨old, hold, hpersists'.trans hpersists⟩

end Tree.KeptIn

/-- No label is missing and none belongs to two nodes or to a node and the module. -/
structure Tree.HasLabels (t : Tree) : Prop where
  inside : ∀ l ∈ t.root :: t.nodes.map Node.tag, l < t.next
  distinct : (t.root :: t.nodes.map Node.tag).Nodup

namespace Tree.HasLabels

variable {t t' : Tree}

theorem nodup (h : t.HasLabels) : (t.nodes.map Node.tag).Nodup := (List.nodup_cons.mp h.distinct).2

/-- A node is found by its label. -/
theorem find?_tag (h : t.HasLabels) {node : Node Label} (hnode : node ∈ t.nodes) :
    t.find? node.tag = some (.node node) := by
  have hroot : node.tag ≠ t.root := fun heq =>
    (List.nodup_cons.mp h.distinct).1 (heq ▸ List.mem_map_of_mem hnode)
  have hfound : (t.nodes.find? fun other => other.tag = node.tag) = some node := by
    cases hfind : t.nodes.find? fun other => other.tag = node.tag with
    | none => exact absurd (decide_eq_true rfl) (List.find?_eq_none.mp hfind node hnode)
    | some other =>
      have htag : other.tag = node.tag := by simpa using List.find?_some hfind
      rw [List.inj_on_of_nodup_map h.nodup (List.mem_of_find?_eq_some hfind) hnode htag]
  rw [Tree.find?, if_neg hroot, hfound]
  rfl

/-- Labels stay distinct if the new ones are fresh. -/
theorem of_subperm (h : t.HasLabels) (hroot : t'.root = t.root) {fresh : List Label}
    (hfresh : Numbered t.next t'.next fresh)
    (hsubperm : (t'.nodes.map Node.tag).Subperm (t.nodes.map Node.tag ++ fresh)) : t'.HasLabels := by
  have hall : (t.root :: (t.nodes.map Node.tag ++ fresh)).Nodup := by
    rw [← List.cons_append]
    refine List.nodup_append.mpr ⟨h.distinct, hfresh.nodup, ?_⟩
    rintro l hl l' hl' rfl
    exact Nat.not_lt.mpr (hfresh.range l hl').1 (h.inside l hl)
  have hlabels : (t'.root :: t'.nodes.map Node.tag).Subperm (t.root :: (t.nodes.map Node.tag ++ fresh)) :=
    hroot ▸ (List.subperm_cons t.root).mpr hsubperm
  obtain ⟨labels, hperm, hsublist⟩ := hlabels
  refine ⟨fun l hl => ?_, hperm.nodup_iff.mp (hsublist.nodup hall)⟩
  rcases List.mem_append.mp (List.cons_append ▸ hsublist.subset (hperm.mem_iff.mpr hl)) with hl | hl
  · exact Nat.lt_of_lt_of_le (h.inside l hl) hfresh.le
  · exact (hfresh.range l hl).2

theorem wellFormed (h : t.HasLabels) (hwritable : t.IsWritable) : t.WellFormed where
  inside := h.inside
  distinct := h.distinct
  slots := Block.slots_perm t.body
  targets s _ hs htarget := Stmt.IsWritable.target (hwritable.nodes (.stmt s) hs) htarget

end Tree.HasLabels

theorem Tree.WellFormed.hasLabels {t : Tree} (h : t.WellFormed) : t.HasLabels := ⟨h.inside, h.distinct⟩

/-- The first tree of a lineage has labels. -/
theorem Tree.ofBlock_hasLabels {α : Type} (lineage : Nat) (body : Block α) :
    (Tree.ofBlock lineage body).HasLabels := by
  have hnumbered := Block.number_numbered body 0
  refine ⟨fun l hl => ?_, List.nodup_cons.mpr ⟨fun hroot => ?_, hnumbered.nodup⟩⟩
  · rcases List.mem_cons.mp hl with rfl | hl
    · exact Nat.lt_succ_self _
    · exact Nat.lt_succ_of_lt (hnumbered.range l hl).2
  · exact Nat.lt_irrefl _ (hnumbered.range _ hroot).2

/-- The first tree of a lineage is well-formed if its program can be written down. -/
theorem Tree.ofBlock_wellFormed {α : Type} {lineage : Nat} {body : Block α} (h : Block.IsWritable body) :
    (Tree.ofBlock lineage body).WellFormed :=
  (Tree.ofBlock_hasLabels lineage body).wellFormed (Tree.ofBlock_isWritable h)

/-- A handle of a node that is kept denotes what it denoted. -/
theorem Tree.KeptIn.locate {t t' : Tree} (h : t.KeptIn t') (hlabels : t.HasLabels) {handle : Handle}
    {new : Node Label} (hnew : t'.locate handle = .ok (.node new)) (hlt : handle.label < t.next) :
    ∃ old, t.locate handle = .ok (.node old) ∧ old.Persists new := by
  obtain ⟨hmem, htag⟩ := Tree.locate_eq_ok hnew
  obtain ⟨old, hold, hpersists⟩ := h.nodes new hmem (htag ▸ hlt)
  refine ⟨old, ?_, hpersists⟩
  have hlineage : handle.lineage = t.lineage := by
    refine Decidable.byContradiction fun hne => ?_
    rw [Tree.locate, if_neg (h.lineage ▸ hne)] at hnew
    cases hnew
  rw [Tree.locate, if_pos hlineage, show handle.label = old.tag from htag.symm.trans hpersists.tag,
    hlabels.find?_tag hold]

/-- A node is what its handle denotes. -/
theorem Tree.HasLabels.locate_handle {t : Tree} (h : t.HasLabels) {node : Node Label} (hnode : node ∈ t.nodes) :
    t.locate (t.handle node.tag) = .ok (.node node) := by
  simp only [Tree.locate, Tree.handle, if_pos, h.find?_tag hnode]

theorem Tree.locate_eq_error {t : Tree} {handle : Handle} {e : TreeError} (h : t.locate handle = .error e) :
    e = .nodeNotFound handle := by
  unfold Tree.locate at h
  split at h
  · cases h
  · cases h
    rfl

/-- The module has one handle. -/
theorem Tree.locate_eq_module {t : Tree} {handle : Handle} :
    t.locate handle = .ok .module ↔ handle.lineage = t.lineage ∧ handle.label = t.root := by
  unfold Tree.locate Tree.find?
  by_cases hlineage : handle.lineage = t.lineage
  · by_cases hroot : handle.label = t.root
    · simp [hlineage, hroot]
    · cases t.nodes.find? fun node => node.tag = handle.label <;> simp [hlineage, hroot]
  · simp [hlineage]

/-! ### Nodes replaced -/

section

variable {t : Tree} {next : Label}

theorem Tree.HasLabels.substituteExpr (h : t.HasLabels) {old new : Expr Label} (hold : .expr old ∈ t.nodes)
    (hfresh : Numbered t.next next new.labels) :
    Tree.HasLabels { t with next, body := Block.substituteExpr old.tag new t.body } := by
  have hself : Block.substituteExpr old.tag old t.body = t.body :=
    Block.mapExprs_self fun part hpart htag => by
      cases List.inj_on_of_nodup_map h.nodup hpart hold htag
      rfl
  have hsubperm := (Block.splices_substituteExpr old.tag t.body).subperm old new
    (by rw [hself]; exact h.nodup) old.labels_ne_nil
  rw [hself] at hsubperm
  exact h.of_subperm rfl hfresh hsubperm

theorem Tree.HasLabels.substituteStmt (h : t.HasLabels) {old new : Stmt Label} (hold : .stmt old ∈ t.nodes)
    (hfresh : Numbered t.next next new.labels) :
    Tree.HasLabels { t with next, body := Block.substituteStmt old.tag new t.body } := by
  have hself : Block.substituteStmt old.tag old t.body = t.body :=
    Block.substituteStmt_self fun part hpart htag => by
      cases List.inj_on_of_nodup_map h.nodup hpart hold htag
      rfl
  have hsubperm := (Block.splices_substituteStmt old.tag t.body).subperm old new
    (by rw [hself]; exact h.nodup) old.labels_ne_nil
  rw [hself] at hsubperm
  exact h.of_subperm rfl hfresh hsubperm

variable {label : Label}

theorem Expr.persists_substituteBelow {new : Expr Label} (e : Expr Label) :
    Node.Persists (.expr e) (.expr (Expr.substituteBelow label new e)) := by
  cases e <;> exact ⟨rfl, rfl, rfl, id⟩

theorem Block.isEmpty_mapExprs (f : Expr Label → Expr Label) (body : Block Label) :
    List.isEmpty (Block.mapExprs f body) = List.isEmpty body := by
  cases body <;> rfl

theorem Stmt.persists_mapExprs (f : Expr Label → Expr Label) (s : Stmt Label) :
    Node.Persists (.stmt s) (.stmt (s.mapExprs f)) := by
  cases s <;> refine ⟨rfl, rfl, rfl, ?_⟩ <;>
    simp [Node.hasEmptyBody, Stmt.hasEmptyBody, Stmt.mapExprs, Block.isEmpty_mapExprs, -List.isEmpty_iff]

theorem Block.isEmpty_substituteStmt {new : Stmt Label} (body : Block Label) :
    List.isEmpty (Block.substituteStmt label new body) = List.isEmpty body := by
  cases body <;> rfl

theorem Stmt.persists_substituteBelow {new : Stmt Label} (s : Stmt Label) :
    Node.Persists (.stmt s) (.stmt (Stmt.substituteBelow label new s)) := by
  cases s <;> refine ⟨rfl, rfl, rfl, ?_⟩ <;>
    simp [Node.hasEmptyBody, Stmt.hasEmptyBody, Stmt.substituteBelow, Block.isEmpty_substituteStmt,
      -List.isEmpty_iff]

/-- Replacing an expression by a new one changes nothing about the nodes outside of it. -/
theorem Tree.substituteExpr_keptIn {new : Expr Label} (hfresh : Numbered t.next next new.labels) :
    t.KeptIn { t with next, body := Block.substituteExpr label new t.body } where
  lineage := rfl
  root := rfl
  next := hfresh.le
  nodes node hnode hlt := by
    rcases Block.mem_mapExprs hnode with ⟨s, hs, rfl⟩ | ⟨e, he, hnode⟩
    · exact ⟨.stmt s, hs, s.persists_mapExprs _⟩
    · obtain ⟨e', he', rfl⟩ := List.mem_map.mp hnode
      rcases Expr.mem_substitute he' with he' | ⟨old, hold, -, rfl⟩
      · exact absurd hlt (Nat.not_lt.mpr (hfresh.range _ (List.mem_map_of_mem he')).1)
      · exact ⟨.expr old, he _ (List.mem_map_of_mem hold), Expr.persists_substituteBelow old⟩

/-- Replacing a statement by a new one changes nothing about the nodes outside of it. -/
theorem Tree.substituteStmt_keptIn {new : Stmt Label} (hfresh : Numbered t.next next new.labels) :
    t.KeptIn { t with next, body := Block.substituteStmt label new t.body } where
  lineage := rfl
  root := rfl
  next := hfresh.le
  nodes node hnode hlt := by
    cases Block.mem_substituteStmt hnode with
    | new h => exact absurd hlt (Nat.not_lt.mpr (hfresh.range _ (List.mem_map_of_mem h)).1)
    | expr h => exact ⟨_, h, .refl _⟩
    | stmt h _ => exact ⟨_, h, Stmt.persists_substituteBelow _⟩

/-! ### Grafts -/

theorem Tree.replace_hasLabels {donor t' : Tree} {target replacement : Handle} (h : t.HasLabels)
    (hresult : t.replace target donor replacement = .ok t') : t'.HasLabels := by
  rcases Tree.replace_eq_ok hresult with
    ⟨old, new, hold, htag, -, rfl⟩ | ⟨old, new, hold, htag, -, -, rfl⟩
  · rw [← htag]
    exact h.substituteStmt hold (new.number_numbered t.next)
  · rw [← htag]
    exact h.substituteExpr hold (new.number_numbered t.next)

/-- A graft leaves the nodes as they are that it does not replace. -/
theorem Tree.replace_keptIn {donor t' : Tree} {target replacement : Handle}
    (hresult : t.replace target donor replacement = .ok t') : t.KeptIn t' := by
  rcases Tree.replace_eq_ok hresult with ⟨_, new, -, -, -, rfl⟩ | ⟨_, new, -, -, -, -, rfl⟩
  · exact Tree.substituteStmt_keptIn (new.number_numbered t.next)
  · exact Tree.substituteExpr_keptIn (new.number_numbered t.next)

/-! ### Blocks replaced -/

theorem Path.subperm_fill {old new : Block Label} {fresh : List Label} (path : Path)
    (h : ((Block.nodes new).map Node.tag).Subperm ((Block.nodes old).map Node.tag ++ fresh)) :
    ((Block.nodes (path.fill new)).map Node.tag).Subperm
      ((Block.nodes (path.fill old)).map Node.tag ++ fresh) := by
  refine (path.tags_fill new).subperm.trans ?_
  refine ((List.subperm_append_left path.labels).mpr h).trans ?_
  rw [← List.append_assoc]
  exact ((path.tags_fill old).symm.append_right fresh).subperm

variable {focus : Focus} {block : Block Label} {fresh : List Label}

/-- Putting other statements around a statement leaves labels distinct if these are some of the labels
there were and fresh ones. -/
theorem Tree.HasLabels.refocus (h : t.HasLabels) (hfocus : Block.focus? label t.body = some focus)
    (hfresh : Numbered t.next next fresh)
    (hblock : ((Block.nodes block).map Node.tag).Subperm ((Block.nodes focus.block).map Node.tag ++ fresh)) :
    ({ t with next }.refocus focus block).HasLabels := by
  obtain ⟨path, hbody, -, hnew⟩ := Block.exists_path h.nodup hfocus
  have hsubperm := path.subperm_fill hblock
  rw [← hbody] at hsubperm
  unfold Tree.refocus
  split
  · refine h.of_subperm rfl hfresh.cons ?_
    show ((Block.nodes (Block.replaceAround _ _ t.body)).map Node.tag).Subperm _
    rw [hnew]
    have hpass : ((Block.nodes [Stmt.pass next]).map Node.tag).Subperm
        ((Block.nodes focus.block).map Node.tag ++ next :: fresh) :=
      List.singleton_subperm_iff.mpr (List.mem_append_right _ (List.mem_cons_self ..))
    have := path.subperm_fill hpass
    rwa [← hbody] at this
  · refine h.of_subperm rfl hfresh ?_
    show ((Block.nodes (Block.replaceAround _ _ t.body)).map Node.tag).Subperm _
    rwa [hnew]

/-- A block on a path is empty only if the block at the end is. -/
theorem Path.fill_eq_nil {path : Path} {new : Block Label} (h : path.fill new = []) : path = [] ∧ new = [] := by
  cases path with
  | nil => exact ⟨rfl, h⟩
  | cons level path => exact absurd h (by simp [Path.fill, Level.fill])

/-- What a statement says itself does not depend on the block in its hole, nor does the emptiness of its
body if the hole is an alternative. -/
theorem Hole.persists_fill (hole : Hole) {old new : Block Label}
    (h : hole.isRequired = true → new = [] → old = []) :
    Node.Persists (.stmt (hole.fill old)) (.stmt (hole.fill new)) := by
  cases hole with
  | elseBlock => exact ⟨rfl, rfl, rfl, id⟩
  | _ =>
    refine ⟨rfl, rfl, rfl, fun hempty => ?_⟩
    exact List.isEmpty_iff.mpr (h rfl (List.isEmpty_iff.mp hempty))

/-- Filling the end of a path with another block leaves the statements on the path as they are. -/
theorem Path.persists_fill {path : Path} {old new : Block Label}
    (hempty : path.requiredOr false = true → new ≠ [])
    (h : ∀ node ∈ Block.nodes new, node.tag < t.next → ∃ node' ∈ Block.nodes (path.fill old), node'.Persists node) :
    ∀ node ∈ Block.nodes (path.fill new), node.tag < t.next →
      ∃ node' ∈ Block.nodes (path.fill old), node'.Persists node := by
  intro node hnode hlt
  rcases Path.mem_nodes_fill.mp hnode with ⟨outer, level, inner, hpath, rfl⟩ | hbeside | hnew
  · refine ⟨_, Path.mem_nodes_fill.mpr (.inl ⟨outer, level, inner, hpath, rfl⟩), ?_⟩
    refine level.hole.persists_fill fun hrequired hfill => ?_
    obtain ⟨rfl, rfl⟩ := Path.fill_eq_nil hfill
    refine absurd rfl (hempty ?_)
    rw [hpath, Path.requiredOr_concat]
    exact hrequired
  · exact ⟨node, Path.mem_nodes_fill.mpr (.inr (.inl hbeside)), .refl node⟩
  · exact h node hnew hlt

/-- Putting other statements around a statement changes nothing about the nodes outside of the block. -/
theorem Tree.refocus_keptIn (h : t.HasLabels) (hfocus : Block.focus? label t.body = some focus)
    (hnext : t.next ≤ next)
    (hblock : ∀ node ∈ Block.nodes block, node.tag < t.next → ∃ old ∈ t.nodes, old.Persists node) :
    t.KeptIn ({ t with next }.refocus focus block) := by
  obtain ⟨path, hbody, hrequired, hnew⟩ := Block.exists_path h.nodup hfocus
  unfold Tree.refocus
  split
  · refine ⟨rfl, rfl, Nat.le_succ_of_le hnext, fun node hnode hlt => ?_⟩
    replace hnode : node ∈ Block.nodes (Block.replaceAround _ _ t.body) := hnode
    rw [hnew] at hnode
    show ∃ old ∈ Block.nodes t.body, _
    rw [hbody]
    refine Path.persists_fill (t := t) (by simp) (fun node hnode hlt => ?_) node hnode hlt
    rw [List.mem_singleton.mp hnode] at hlt
    exact absurd hlt (Nat.not_lt.mpr hnext)
  · rename_i hempty
    refine ⟨rfl, rfl, hnext, fun node hnode hlt => ?_⟩
    replace hnode : node ∈ Block.nodes (Block.replaceAround _ _ t.body) := hnode
    rw [hnew] at hnode
    replace hblock : ∀ node ∈ Block.nodes block, node.tag < t.next →
      ∃ old ∈ Block.nodes t.body, old.Persists node := hblock
    show ∃ old ∈ Block.nodes t.body, _
    rw [hbody] at hblock ⊢
    refine Path.persists_fill (t := t) (fun hpath hnil => hempty ?_) hblock node hnode hlt
    rw [hrequired, hpath, hnil]
    rfl

end

end ProgramBreeding

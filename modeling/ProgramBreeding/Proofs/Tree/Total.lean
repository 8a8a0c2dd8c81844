import Mathlib.Algebra.Order.BigOperators.Group.List
import ProgramBreeding.Proofs.Tree.WellFormed

/-!
# Totals over the nodes of a program

A number for each node, added up over a program.  An edit changes the total by what it changes about the
nodes that it takes away and brings in.

## Main definitions

* `Node.nodes_eq`, `Node.induct` — a node and what is in its slots.
* `Node.total`, `Block.total` — a number for each node, added up.
* `Node.IsOwn` — numbers of a statement that do not depend on what is in its blocks.
* `Tree.HasLabels.total_refocus` — totals after the block around a statement is replaced.
* `Node.total_substitute`, `Block.total_substituteExpr` — totals after an expression is replaced.

## Design notes

That a total falls by at least `d` is written as `new + d ≤ old`; with `d = 0` it does not rise, and with
`d = 1` it falls.
-/

namespace ProgramBreeding

section

variable {α : Type}

/-! ### What is in the slots of a node -/

theorem Expr.subtermsAll_eq (es : List (Expr α)) : Expr.subtermsAll es = es.flatMap Expr.subterms := by
  induction es with
  | nil => rfl
  | cons e rest ih => rw [Expr.subtermsAll, ih, List.flatMap_cons]

theorem Expr.subtermsCond_eq (cond : Option (Expr α)) :
    Expr.subtermsCond cond = cond.toList.flatMap Expr.subterms := by
  cases cond with
  | none => rfl
  | some e => exact (List.append_nil _).symm

theorem Block.nodes_eq (body : Block α) : Block.nodes body = (List.map Node.stmt body).flatMap Node.nodes := by
  induction body with
  | nil => rfl
  | cons s rest ih => rw [Block.nodes, ih, List.map_cons, List.flatMap_cons, Node.nodes]

/-- The nodes of a node are itself and the nodes of what is in its slots. -/
theorem Node.nodes_eq (node : Node α) : node.nodes = node :: node.children.flatMap Node.nodes := by
  cases node with
  | expr e =>
    cases e <;>
      simp [Node.nodes, Expr.nodes, Expr.subterms, Node.children, Expr.children, Expr.subtermsAll_eq,
        Expr.subtermsCond_eq, List.map_flatMap, List.flatMap_map]
  | stmt s =>
    cases s with
    | ret _ value => cases value <;> simp [Node.nodes, Stmt.nodes, Node.children]
    | _ => simp [Node.nodes, Stmt.nodes, Node.children, Block.nodes_eq]

/-- What holds of a node if it holds of what is in its slots holds of all nodes. -/
theorem Node.induct {P : Node α → Prop} (h : ∀ node, (∀ child ∈ node.children, P child) → P node)
    (node : Node α) : P node := by
  induction hlength : node.nodes.length using Nat.strongRecOn generalizing node with
  | ind length ih =>
    refine h node fun child hchild => ih _ ?_ child rfl
    rw [← hlength, node.nodes_eq, List.length_cons, List.length_flatMap]
    exact Nat.lt_succ_of_le (List.le_sum_of_mem (List.mem_map_of_mem hchild))

/-! ### Totals -/

/-- A number for each node, added up over a node and those below it. -/
def Node.total (f : Node α → Nat) (node : Node α) : Nat := (node.nodes.map f).sum

/-- A number for each node, added up over a block. -/
def Block.total (f : Node α → Nat) (body : Block α) : Nat := ((Block.nodes body).map f).sum

variable {f : Node α → Nat}

theorem sum_flatMap_nodes (nodes : List (Node α)) :
    ((nodes.flatMap Node.nodes).map f).sum = (nodes.map (Node.total f)).sum := by
  rw [List.flatMap_def, List.map_flatten, List.sum_flatten, List.map_map, List.map_map]
  rfl

theorem Node.total_eq (node : Node α) : node.total f = f node + (node.children.map (Node.total f)).sum := by
  rw [Node.total, node.nodes_eq, List.map_cons, List.sum_cons, sum_flatMap_nodes]

theorem Block.total_eq (body : Block α) :
    Block.total f body = ((List.map Node.stmt body).map (Node.total f)).sum := by
  rw [Block.total, Block.nodes_eq, sum_flatMap_nodes]

@[simp] theorem Block.total_nil : Block.total f [] = 0 := rfl

@[simp] theorem Block.total_cons (s : Stmt α) (body : Block α) :
    Block.total f (s :: body) = Node.total f (.stmt s) + Block.total f body := by
  simp only [Block.total_eq, List.map_cons, List.sum_cons]

@[simp] theorem Block.total_append (body rest : Block α) :
    Block.total f (body ++ rest) = Block.total f body + Block.total f rest := by
  simp only [Block.total_eq, List.map_append, List.sum_append]

theorem Node.le_total (node : Node α) : f node ≤ node.total f := by
  rw [Node.total_eq]
  exact Nat.le_add_right ..

end

variable {f : Node Label → Nat} {label next : Label} {d : Nat}

/-! ### The block around a statement -/

theorem Level.total_fill (level : Level) (block : Block Label) :
    Block.total f (level.fill block) =
      f (.stmt (level.hole.fill block)) + (level.nodes.map f).sum + Block.total f block := by
  have hhole : Node.total f (.stmt (level.hole.fill block)) =
      f (.stmt (level.hole.fill block)) + (level.hole.nodes.map f).sum + Block.total f block := by
    cases level.hole <;>
      simp only [Hole.fill, Hole.nodes, Node.total, Node.nodes, Block.total, Stmt.nodes, List.map_cons,
        List.map_append, List.map_nil, List.sum_cons, List.sum_append, List.sum_nil] <;>
      omega
  simp only [Level.fill, Level.nodes, Block.total_append, Block.total_cons, List.map_append, List.sum_append,
    hhole]
  simp only [Block.total]
  omega

/-- Numbers of a statement that do not depend on what is in its blocks, but for whether a body is empty. -/
def Node.IsOwn (f : Node Label → Nat) : Prop :=
  ∀ (hole : Hole) (old new : Block Label), (hole.isRequired = true → (new = [] ↔ old = [])) →
    f (.stmt (hole.fill new)) = f (.stmt (hole.fill old))

/-- By induction on the path: the statements on it keep their numbers. -/
theorem Path.total_fill (hf : Node.IsOwn f) (old new : Block Label) : ∀ (path : Path) (required : Bool),
    (path.requiredOr required = true → (new = [] ↔ old = [])) →
      Block.total f (path.fill new) + Block.total f old = Block.total f (path.fill old) + Block.total f new
  | [], _, _ => Nat.add_comm _ _
  | level :: path, _, h => by
    have hpath := total_fill hf old new path level.hole.isRequired h
    have hown : f (.stmt (level.hole.fill (fill path new))) = f (.stmt (level.hole.fill (fill path old))) := by
      refine hf _ _ _ fun hrequired => ?_
      cases path with
      | nil => exact h hrequired
      | cons =>
        exact ⟨fun hnil => absurd (Path.fill_eq_nil hnil).1 (List.cons_ne_nil _ _),
          fun hnil => absurd (Path.fill_eq_nil hnil).1 (List.cons_ne_nil _ _)⟩
    rw [Path.fill, Path.fill, Level.total_fill, Level.total_fill, hown]
    omega

theorem Focus.total_block (focus : Focus) : Block.total f focus.block =
    Block.total f focus.before + Node.total f (.stmt focus.stmt) + Block.total f focus.after := by
  rw [Focus.block, Block.total_append, Block.total_cons, Nat.add_assoc]

/-- The total of a tree falls by at least as much as that of the block that is replaced, or of the empty
statement that stands in for an empty block. -/
theorem Tree.HasLabels.total_refocus {t : Tree} (h : t.HasLabels) (next : Label) {focus : Focus}
    {block : Block Label} (hfocus : Block.focus? label t.body = some focus) (hf : Node.IsOwn f)
    (hblock : Block.total f block + d ≤ Block.total f focus.block)
    (hpass : block = [] → f (.stmt (.pass next)) + d ≤ Block.total f focus.block) :
    Block.total f ({ t with next }.refocus focus block).body + d ≤ Block.total f t.body := by
  obtain ⟨path, hbody, hrequired, hnew⟩ := Block.exists_path h.nodup hfocus
  have hne : focus.block ≠ [] := by simp [Focus.block]
  have hold : Block.total f t.body = Block.total f (path.fill focus.block) := congrArg _ hbody
  unfold Tree.refocus
  split
  · rename_i hempty
    simp only [Bool.and_eq_true, List.isEmpty_iff] at hempty
    have htotal := path.total_fill hf focus.block [.pass next] false
      fun _ => ⟨fun hnil => absurd hnil (List.cons_ne_nil _ _), fun hnil => absurd hnil hne⟩
    have hone : Block.total f [.pass next] = f (.stmt (.pass next)) := rfl
    have hdrop := hpass hempty.1
    show Block.total f (Block.replaceAround _ [.pass next] t.body) + d ≤ _
    rw [hnew]
    omega
  · rename_i hempty
    have htotal := path.total_fill hf focus.block block false fun hpath =>
      ⟨fun hnil => absurd (by simp [hnil, hrequired, hpath]) hempty, fun hnil => absurd hnil hne⟩
    show Block.total f (Block.replaceAround _ block t.body) + d ≤ _
    rw [hnew]
    omega

/-! ### Expressions replaced -/

section

variable {new : Expr Label}

/-- Whether a node is the expression with a label. -/
def Node.isExprAt (label : Label) : Node Label → Bool
  | .expr e => e.tag = label
  | .stmt _ => false

/-- A node with the expression of a label replaced in it. -/
def Node.substitute (label : Label) (new : Expr Label) : Node Label → Node Label
  | .expr e => .expr (Expr.substitute label new e)
  | .stmt s => .stmt (s.mapExprs (Expr.substitute label new))

theorem Expr.substituteAll_eq (es : List (Expr Label)) :
    Expr.substituteAll label new es = es.map (Expr.substitute label new) := by
  induction es with
  | nil => rfl
  | cons e rest ih => rw [Expr.substituteAll, ih, List.map_cons]

theorem Block.mapExprs_eq (g : Expr Label → Expr Label) (body : Block Label) :
    Block.mapExprs g body = List.map (Stmt.mapExprs g) body := by
  induction body with
  | nil => rfl
  | cons s rest ih => rw [Block.mapExprs, ih, List.map_cons]

theorem Block.map_stmt_mapExprs (body : Block Label) :
    List.map Node.stmt (Block.mapExprs (Expr.substitute label new) body) =
      (List.map Node.stmt body).map (Node.substitute label new) := by
  rw [Block.mapExprs_eq, List.map_map, List.map_map]
  rfl

theorem Node.substitute_expr {e : Expr Label} (h : (Node.expr e).isExprAt label = false) :
    (Node.expr e).substitute label new = .expr (Expr.substituteBelow label new e) := by
  rw [Node.substitute, Expr.substitute_eq, if_neg (of_decide_eq_false h)]

/-- In a node that is not replaced itself, what is in its slots is. -/
theorem Node.children_substitute {node : Node Label} (h : node.isExprAt label = false) :
    (node.substitute label new).children = node.children.map (Node.substitute label new) := by
  cases node with
  | expr e =>
    rw [Node.substitute_expr h]
    cases e with
    | comprehension _ _ _ _ _ cond =>
      cases cond <;> simp [Expr.substituteBelow, Expr.substituteCond, Node.children, Expr.children, Node.substitute]
    | _ =>
      simp [Expr.substituteBelow, Node.children, Expr.children, Expr.substituteAll_eq, Node.substitute]
  | stmt s =>
    cases s with
    | ret _ value => cases value <;> simp [Node.substitute, Stmt.mapExprs, Node.children]
    | _ => simp only [Node.substitute, Stmt.mapExprs, Node.children, Block.map_stmt_mapExprs, List.map_cons,
        List.map_append, List.map_nil]

theorem min_sum_le (d : Nat) (ns : List Nat) : min d ns.sum ≤ (ns.map (min d)).sum := by
  induction ns with
  | nil => exact Nat.min_le_right ..
  | cons n rest ih =>
    rw [List.sum_cons, List.map_cons, List.sum_cons]
    omega

/-- If each of some nodes loses at least `d` wherever the label is, so do all of them. -/
theorem sum_total_map (nodes : List (Node Label)) (change : Node Label → Node Label) {p : Node Label → Bool}
    (h : ∀ node ∈ nodes, (change node).total f + min d (node.nodes.countP p) ≤ node.total f) :
    ((nodes.map change).map (Node.total f)).sum + min d ((nodes.flatMap Node.nodes).countP p) ≤
      (nodes.map (Node.total f)).sum := by
  have hsum := List.sum_le_sum h
  have hmin := min_sum_le d (nodes.map fun node => node.nodes.countP p)
  rw [List.sum_map_add] at hsum
  rw [List.map_map] at hmin
  rw [List.map_map, List.countP_flatMap]
  exact Nat.le_trans (Nat.add_le_add_left hmin _) hsum

/-- By induction on the node: where the label is the total falls, and nowhere does it rise. -/
theorem Node.total_substitute
    (hown : ∀ node : Node Label, node.isExprAt label = false → f (node.substitute label new) ≤ f node)
    (node : Node Label) : (∀ part, .expr part ∈ node.nodes → part.tag = label →
      Node.total f (.expr new) + d ≤ Node.total f (.expr part)) →
    (node.substitute label new).total f + min d (node.nodes.countP (Node.isExprAt label)) ≤ node.total f := by
  induction node using Node.induct with
  | h node ih =>
    intro hnew
    cases hat : node.isExprAt label with
    | true =>
      obtain ⟨e, rfl, htag⟩ : ∃ e, node = .expr e ∧ e.tag = label := by
        cases node with
        | expr e => exact ⟨e, rfl, of_decide_eq_true hat⟩
        | stmt => cases hat
      have hdrop := hnew e (by simp [Node.nodes_eq (.expr e)]) htag
      rw [Node.substitute, Expr.substitute_eq, if_pos htag]
      omega
    | false =>
      have hchildren := sum_total_map (d := d) node.children (Node.substitute label new) fun child hchild =>
        ih child hchild fun part hpart => hnew part (by
          rw [Node.nodes_eq node]
          exact List.mem_cons_of_mem _ (List.mem_flatMap.mpr ⟨child, hchild, hpart⟩))
      have hhead := hown node hat
      rw [Node.total_eq, Node.total_eq node, Node.nodes_eq node, Node.children_substitute hat, List.countP_cons, hat]
      simp only [Bool.false_eq_true, if_false, Nat.add_zero]
      omega

/-- The same for the expression of a label in a block. -/
theorem Block.total_substituteExpr {body : Block Label}
    (hown : ∀ node : Node Label, node.isExprAt label = false → f (node.substitute label new) ≤ f node)
    (hnew : ∀ part, .expr part ∈ Block.nodes body → part.tag = label →
      Node.total f (.expr new) + d ≤ Node.total f (.expr part)) :
    Block.total f (Block.substituteExpr label new body) +
      min d ((Block.nodes body).countP (Node.isExprAt label)) ≤ Block.total f body := by
  have hstmts := sum_total_map (d := d) (List.map Node.stmt body) (Node.substitute label new)
    fun node hnode => by
      refine Node.total_substitute hown node fun part hpart => hnew part ?_
      rw [Block.nodes_eq]
      exact List.mem_flatMap.mpr ⟨node, hnode, hpart⟩
  rwa [Block.total_eq, Block.total_eq, Block.nodes_eq, Block.substituteExpr, Block.map_stmt_mapExprs]

end

end ProgramBreeding

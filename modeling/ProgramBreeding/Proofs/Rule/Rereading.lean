import ProgramBreeding.Proofs.Rule.Bulk
import ProgramBreeding.Proofs.Source.Writable

/-!
# What is read back is not bulkier

A program is read back from its text with a sign before every negative integer and `pass` in every empty
body.  That has been counted before, so there is no more of anything.

## Main definitions

* `Node.reread` — a node as it is read back.
* `Node.total_reread`, `Block.total_reread` — totals of what is read back.
* `Tree.IsWritable.bulk_reread` — a tree that is read back is not bulkier.
-/

namespace ProgramBreeding

open Source

/-! ### Nodes as they are read back -/

section

variable {f : Node Label → Nat}

/-- A node as it is read back: with a sign before every negative integer and `pass` in every empty body. -/
def Node.reread : Node Label → Node Label
  | .expr e => .expr e.signed
  | .stmt s => .stmt (s.mapExprs Expr.signed).filled

theorem Block.map_stmt_reread (body : Block Label) :
    List.map Node.stmt (Block.filled (Block.mapExprs Expr.signed body)) =
      (List.map Node.stmt body).map Node.reread := by
  induction body with
  | nil => rfl
  | cons s rest ih =>
    rw [Block.mapExprs, Block.filled, List.map_cons, ih]
    rfl

theorem Expr.map_expr_signedAll (es : List (Expr Label)) :
    List.map Node.expr (Expr.signedAll es) = (List.map Node.expr es).map Node.reread := by
  induction es with
  | nil => rfl
  | cons e rest ih =>
    rw [Expr.signedAll, List.map_cons, ih]
    rfl

/-- What a body is read back as: `pass` counts if it was empty. -/
theorem Block.sum_orPass (tag : Label) (body : Block Label) :
    ((List.map Node.stmt (Block.orPass tag (Block.filled (Block.mapExprs Expr.signed body)))).map f).sum =
      (((List.map Node.stmt body).map Node.reread).map f).sum +
        bif List.isEmpty body then f (.stmt (.pass tag)) else 0 := by
  cases body with
  | nil => exact Nat.add_comm _ _
  | cons s rest =>
    have hcons : Block.orPass tag (Block.filled (Block.mapExprs Expr.signed (s :: rest))) =
        Block.filled (Block.mapExprs Expr.signed (s :: rest)) := rfl
    rw [hcons, Block.map_stmt_reread]
    rfl

/-- What is in the slots of a node is read back in them, and `pass` in an empty body. -/
theorem Node.sum_children_reread {node : Node Label} (h : ∀ l value, node ≠ .expr (.constant l value)) :
    (node.reread.children.map f).sum = ((node.children.map Node.reread).map f).sum +
      bif node.hasEmptyBody then f (.stmt (.pass node.tag)) else 0 := by
  cases node with
  | expr e =>
    cases e with
    | constant l value => exact absurd rfl (h l value)
    | comprehension _ _ _ _ _ cond =>
      cases cond <;>
        simp [Node.reread, Expr.signed, Expr.signedCond, Node.children, Expr.children, Node.hasEmptyBody]
    | _ =>
      simp [Node.reread, Expr.signed, Node.children, Expr.children, Node.hasEmptyBody, Expr.map_expr_signedAll]
  | stmt s =>
    cases s with
    | ret _ value =>
      cases value <;> simp [Node.reread, Stmt.mapExprs, Stmt.filled, Node.children, Node.hasEmptyBody,
        Stmt.hasEmptyBody]
    | functionDef tag _ _ body => exact Block.sum_orPass tag body
    | forLoop | whileLoop | ifElse =>
      simp only [Node.reread, Stmt.mapExprs, Stmt.filled, Node.children, Node.hasEmptyBody, Stmt.hasEmptyBody,
        List.map_cons, List.map_append, List.sum_cons, List.sum_append, Block.sum_orPass, Block.map_stmt_reread,
        Node.tag, Stmt.tag]
      omega
    | _ => simp [Node.reread, Stmt.mapExprs, Stmt.filled, Node.children, Node.hasEmptyBody, Stmt.hasEmptyBody]

/-- By induction on the node: reading it back does not raise a total in which a sign and its integer count as
much as the negative integer, and a statement with `pass` in its body as much as the one with none. -/
theorem Node.total_reread (hown : ∀ node : Node Label,
      f node.reread + (bif node.hasEmptyBody then f (.stmt (.pass node.tag)) else 0) ≤ f node)
    (node : Node Label) : (∀ l value, .expr (.constant l value) ∈ node.nodes →
      Node.total f (.expr (value.signed l)) ≤ f (.expr (.constant l value))) →
    node.reread.total f ≤ node.total f := by
  induction node using Node.induct with
  | h node ih =>
    intro hconstant
    by_cases hnode : ∃ l value, node = .expr (.constant l value)
    · obtain ⟨l, value, rfl⟩ := hnode
      exact Nat.le_trans (hconstant l value (List.mem_cons_self ..)) (Node.le_total _)
    · have hchildren : ((node.children.map Node.reread).map (Node.total f)).sum ≤
          (node.children.map (Node.total f)).sum := by
        rw [List.map_map]
        refine List.sum_le_sum fun child hchild => ih child hchild fun l value hmem => hconstant l value ?_
        rw [Node.nodes_eq node]
        exact List.mem_cons_of_mem _ (List.mem_flatMap.mpr ⟨child, hchild, hmem⟩)
      have hpass : Node.total f (.stmt (.pass node.tag)) = f (.stmt (.pass node.tag)) := rfl
      have hhead := hown node
      rw [Node.total_eq, Node.total_eq node,
        Node.sum_children_reread fun l value heq => hnode ⟨l, value, heq⟩, hpass]
      omega

theorem Block.total_reread (hown : ∀ node : Node Label,
      f node.reread + (bif node.hasEmptyBody then f (.stmt (.pass node.tag)) else 0) ≤ f node)
    {body : Block Label} (hconstant : ∀ l value, .expr (.constant l value) ∈ Block.nodes body →
      Node.total f (.expr (value.signed l)) ≤ f (.expr (.constant l value))) :
    Block.total f (Block.filled (Block.signed body)) ≤ Block.total f body := by
  rw [Block.total_eq, Block.total_eq, Block.signed, Block.map_stmt_reread, List.map_map]
  refine List.sum_le_sum fun node hnode => Node.total_reread hown node fun l value hmem => hconstant l value ?_
  rw [Block.nodes_eq]
  exact List.mem_flatMap.mpr ⟨node, hnode, hmem⟩

end

/-! ### Other tags -/

section

variable {α β : Type} {f : {α : Type} → Node α → Nat}

theorem Node.total_expr_map (hf : ∀ {α β : Type} (g : α → β) (node : Node α), f (node.map g) = f node) (g : α → β)
    (e : Expr α) : Node.total f (.expr (e.map g)) = Node.total f (.expr e) := by
  rw [Node.total, Node.nodes, Expr.nodes_map, List.map_map]
  exact congrArg List.sum (List.map_congr_left fun node _ => hf g node)

theorem Block.total_shape (hf : ∀ {α β : Type} (g : α → β) (node : Node α), f (node.map g) = f node)
    (body : Block α) : Block.total f (Block.shape body) = Block.total f body := by
  rw [Block.total, Block.shape, Block.nodes_map, List.map_map]
  exact congrArg List.sum (List.map_congr_left fun node _ => hf _ node)

theorem Node.loops_map (g : α → β) (node : Node α) : (node.map g).loops = node.loops := by
  cases node with
  | expr => rfl
  | stmt s => cases s <;> rfl

theorem Node.calls_map (g : α → β) (node : Node α) : (node.map g).calls = node.calls := by
  cases node with
  | stmt => rfl
  | expr e => cases e <;> rfl

theorem Node.testCalls_map (g : α → β) (node : Node α) : (node.map g).testCalls = node.testCalls := by
  cases node with
  | expr => rfl
  | stmt s =>
    cases s with
    | whileLoop l test body => exact Node.total_expr_map (f := Node.calls) Node.calls_map g test
    | _ => rfl

theorem Block.isEmpty_map (g : α → β) (body : Block α) : List.isEmpty (Block.map g body) = List.isEmpty body := by
  cases body <;> rfl

theorem Node.weight_map (g : α → β) (node : Node α) : (node.map g).weight = node.weight := by
  cases node with
  | expr e =>
    cases e with
    | constant l value => cases value <;> rfl
    | _ => rfl
  | stmt s =>
    have hempty : (s.map g).hasEmptyBody = s.hasEmptyBody := by
      cases s <;> first | rfl | exact Block.isEmpty_map g _
    simp only [Node.map, Node.weight, hempty]

end

/-- Programs of one shape count the same. -/
theorem Block.total_eq_of_shape {f : {α : Type} → Node α → Nat}
    (hf : ∀ {α β : Type} (g : α → β) (node : Node α), f (node.map g) = f node) {α β : Type} {body : Block α}
    {body' : Block β} (h : Block.shape body' = Block.shape body) : Block.total f body' = Block.total f body := by
  rw [← Block.total_shape hf body', h, Block.total_shape hf]

/-! ### What is counted -/

section

variable {f : Node Label → Nat}

/-- Where `pass` does not count, it does not matter that it is put into empty bodies. -/
theorem Node.reread_le_of_pass (hpass : ∀ l, f (.stmt (.pass l)) = 0) {node : Node Label} (h : f node.reread ≤ f node) :
    f node.reread + (bif node.hasEmptyBody then f (.stmt (.pass node.tag)) else 0) ≤ f node := by
  rw [hpass, Bool.cond_self]
  exact h

theorem Node.loops_reread (node : Node Label) : node.reread.loops ≤ node.loops := by
  cases node with
  | expr => exact Nat.le_refl _
  | stmt s => cases s <;> exact Nat.le_refl _

theorem Literal.calls_signed (l : Label) (value : Literal) : Node.total Node.calls (.expr (value.signed l)) = 0 := by
  cases value with
  | int value =>
    rw [Literal.signed]
    split <;> rfl
  | _ => rfl

theorem Node.calls_reread (node : Node Label) : node.reread.calls ≤ node.calls := by
  cases node with
  | stmt => exact Nat.le_refl _
  | expr e =>
    cases e with
    | constant l value =>
      exact Nat.le_trans (Node.le_total _) (Nat.le_of_eq (Literal.calls_signed l value))
    | _ => exact Nat.le_refl _

theorem Node.testCalls_reread (node : Node Label) : node.reread.testCalls ≤ node.testCalls := by
  cases node with
  | expr => exact Nat.le_refl _
  | stmt s =>
    cases s with
    | whileLoop l test body =>
      exact Node.total_reread (fun node => Node.reread_le_of_pass (fun _ => rfl) node.calls_reread) (.expr test)
        fun l value _ => Nat.le_of_eq (Literal.calls_signed l value)
    | _ => exact Nat.le_refl _

/-- A sign and the integer after it weigh as much as the negative integer. -/
theorem Literal.weight_signed (l : Label) {value : Literal} (h : IsWritableLiteral value) :
    Node.total Node.weight (.expr (value.signed l)) ≤ Node.weight (.expr (.constant l value)) := by
  cases value with
  | int value =>
    rw [Literal.signed]
    by_cases hneg : value < 0
    · have hopposite : ¬ -value < 0 := by
        rw [Int64.lt_iff_toInt_lt, toInt_neg_of_ne h]
        have hnegative := Int64.lt_iff_toInt_lt.mp hneg
        have hzero : (0 : Int64).toInt = 0 := rfl
        omega
      rw [if_pos hneg, Node.weight, if_pos hneg]
      show 1 + ((if -value < 0 then 2 else 1) + 0) ≤ 2
      rw [if_neg hopposite]
      exact Nat.le_refl 2
    · rw [if_neg hneg]
      exact Nat.le_refl _
  | _ => exact Nat.le_refl _

theorem Stmt.hasEmptyBody_reread (s : Stmt Label) : (s.mapExprs Expr.signed).filled.hasEmptyBody = false := by
  have hpass : ∀ (tag : Label) (body : Block Label), List.isEmpty (Block.orPass tag body) = false := by
    intro tag body
    cases body <;> rfl
  cases s <;> first | rfl | exact hpass _ _

theorem Node.weight_reread (node : Node Label) :
    node.reread.weight + (bif node.hasEmptyBody then Node.weight (.stmt (.pass node.tag)) else 0) ≤ node.weight := by
  cases node with
  | stmt s =>
    have hreread : Node.weight (.stmt (s.mapExprs Expr.signed).filled) = 1 := by
      rw [Node.weight, Stmt.hasEmptyBody_reread]
      rfl
    show Node.weight (.stmt (s.mapExprs Expr.signed).filled) + (bif s.hasEmptyBody then 1 else 0) ≤
      if s.hasEmptyBody then 2 else 1
    rw [hreread]
    cases s.hasEmptyBody <;> exact Nat.le_refl _
  | expr e =>
    cases e with
    | constant l value =>
      cases value with
      | int value =>
        show Node.weight (.expr ((Literal.int value).signed l)) + 0 ≤ if value < 0 then 2 else 1
        rw [Literal.signed]
        split
        · exact Nat.le_succ 1
        · exact Nat.le_of_eq (if_neg ‹_›)
      | _ => exact Nat.le_refl _
    | _ => exact Nat.le_refl _

end

/-- A tree that is read back from its text is not bulkier. -/
theorem Tree.IsWritable.bulk_reread {t : Tree} (h : t.IsWritable) {body' : Block Line} (lineage : Nat)
    (hparse : parse (render t.body) = .ok body') : (Tree.ofBlock lineage body').bulk ≤ t.bulk := by
  have hshape : Block.shape (Tree.ofBlock lineage body').body = Block.shape (Block.filled (Block.signed t.body)) := by
    refine (Block.number_shape body' 0).trans ?_
    rcases Block.IsWritable.readsAs h.nodes with ⟨_, hread, hshape⟩ | ⟨_, _, hdeep⟩
    · cases hparse.symm.trans hread
      exact hshape
    · cases hparse.symm.trans hdeep
  refine Prod.Lex.toLex_mono ⟨?_, Prod.Lex.toLex_mono ⟨?_, ?_⟩⟩
  · show Block.total Node.loops _ ≤ _
    rw [Block.total_eq_of_shape (f := Node.loops) Node.loops_map hshape]
    refine Block.total_reread (fun node => Node.reread_le_of_pass (fun _ => rfl) node.loops_reread) ?_
    intro l value _
    rw [Node.total_expr_eq_zero fun _ => rfl]
    exact Nat.zero_le _
  · show Block.total Node.testCalls _ ≤ _
    rw [Block.total_eq_of_shape (f := Node.testCalls) Node.testCalls_map hshape]
    refine Block.total_reread (fun node => Node.reread_le_of_pass (fun _ => rfl) node.testCalls_reread) ?_
    intro l value _
    rw [Node.total_expr_eq_zero fun _ => rfl]
    exact Nat.zero_le _
  · show Block.total Node.weight _ ≤ _
    rw [Block.total_eq_of_shape (f := Node.weight) Node.weight_map hshape]
    exact Block.total_reread Node.weight_reread fun l value hmem => Literal.weight_signed l (h.nodes _ hmem)

end ProgramBreeding

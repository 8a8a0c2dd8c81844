import Mathlib.Data.Prod.Lex
import ProgramBreeding.Proofs.Rule.WellFormed
import ProgramBreeding.Proofs.Tree.Total

/-!
# Rules make programs less bulky

Rules can make a program longer: a sum that does not start at zero is longer than its loop, and a length
that is taken before a loop is one more statement.  But there is one loop over a sequence less then, or one
call less in the condition of a loop, and no rule ever brings in either of them.

## Main definitions

* `Node.loops`, `Node.testCalls`, `Node.weight` — what is counted in a program.
* `Tree.bulk` — these three numbers; the earlier ones outweigh the later ones.
* `Rule.result?_bulk_lt` — every rule makes a program less bulky.

## Design notes

A negative integer weighs as much as the sign and the integer that it is read back as, and a statement with
an empty body as much as one with `pass` in it.  So the weight of a program is also that of its text.
-/

namespace ProgramBreeding

section

variable {α : Type}

/-- One for each loop over a sequence. -/
def Node.loops : Node α → Nat
  | .stmt (.forLoop ..) => 1
  | _ => 0

/-- One for each call. -/
def Node.calls : Node α → Nat
  | .expr (.call ..) => 1
  | _ => 0

/-- The number of calls in the condition of a loop. -/
def Node.testCalls : Node α → Nat
  | .stmt (.whileLoop _ test _) => Node.total Node.calls (.expr test)
  | _ => 0

/-- What a node weighs. -/
def Node.weight : Node α → Nat
  | .expr (.constant _ (.int value)) => if value < 0 then 2 else 1
  | .expr _ => 1
  | .stmt s => if s.hasEmptyBody then 2 else 1

/-- Whether a statement has no blocks. -/
def Stmt.isSimple : Stmt α → Bool
  | .functionDef .. | .forLoop .. | .whileLoop .. | .ifElse .. => false
  | _ => true

end

/-- The loops over sequences, the calls in the conditions of other loops and the weight of a tree, in the
order of importance. -/
def Tree.bulk (t : Tree) : Nat ×ₗ Nat ×ₗ Nat :=
  toLex (Block.total Node.loops t.body, toLex (Block.total Node.testCalls t.body, Block.total Node.weight t.body))

/-! ### What is counted -/

/-- Numbers of nodes that are at least `d`, and no more for statements without blocks. -/
structure Node.Counts (d : Nat) (f : Node Label → Nat) : Prop where
  own : Node.IsOwn f
  least : ∀ node, d ≤ f node
  simple : ∀ s : Stmt Label, s.isSimple = true → f (.stmt s) = d

theorem Node.counts_loops : Node.Counts 0 Node.loops where
  own hole _ _ _ := by cases hole <;> rfl
  least _ := Nat.zero_le _
  simple s h := by cases s <;> first | rfl | cases h

theorem Node.counts_testCalls : Node.Counts 0 Node.testCalls where
  own hole _ _ _ := by cases hole <;> rfl
  least _ := Nat.zero_le _
  simple s h := by cases s <;> first | rfl | cases h

theorem Node.counts_weight : Node.Counts 1 Node.weight where
  own hole old new h := by
    have hempty : (hole.fill new).hasEmptyBody = (hole.fill old).hasEmptyBody := by
      cases hole with
      | elseBlock => rfl
      | _ => exact Bool.eq_iff_iff.mpr (List.isEmpty_iff.trans ((h rfl).trans List.isEmpty_iff.symm))
    simp only [Node.weight, hempty]
  least node := by
    unfold Node.weight
    split
    · split <;> omega
    · exact Nat.le_refl 1
    · split <;> omega
  simple s h := by cases s <;> first | rfl | cases h

/-- What is counted of statements only is nothing in an expression. -/
theorem Node.total_expr_eq_zero {f : Node Label → Nat} (hf : ∀ e, f (.expr e) = 0) (e : Expr Label) :
    Node.total f (.expr e) = 0 := by
  refine List.sum_eq_zero fun n hn => ?_
  obtain ⟨node, hnode, rfl⟩ := List.mem_map.mp hn
  obtain ⟨part, -, rfl⟩ := List.mem_map.mp hnode
  exact hf part

/-- The total of a statement is its number and the totals of its expressions and blocks. -/
theorem Node.total_assign {f : Node Label → Nat} (l : Label) (target value : Expr Label) :
    Node.total f (.stmt (.assign l target value)) =
      f (.stmt (.assign l target value)) + Node.total f (.expr target) + Node.total f (.expr value) := by
  rw [Node.total_eq]
  simp [Node.children, Nat.add_assoc]

theorem Node.total_whileLoop {f : Node Label → Nat} (l : Label) (test : Expr Label) (body : Block Label) :
    Node.total f (.stmt (.whileLoop l test body)) =
      f (.stmt (.whileLoop l test body)) + Node.total f (.expr test) + Block.total f body := by
  rw [Node.total_eq, Block.total_eq]
  simp [Node.children, Nat.add_assoc]

variable {t t' : Tree} {label next : Label}

/-! ### Comparing trees -/

theorem Tree.bulk_lt_of_loops (h : Block.total Node.loops t'.body + 1 ≤ Block.total Node.loops t.body) :
    t'.bulk < t.bulk :=
  Prod.Lex.toLex_lt_toLex.mpr (.inl h)

theorem Tree.bulk_lt_of_testCalls (hloops : Block.total Node.loops t'.body ≤ Block.total Node.loops t.body)
    (h : Block.total Node.testCalls t'.body + 1 ≤ Block.total Node.testCalls t.body) : t'.bulk < t.bulk := by
  rcases Nat.lt_or_eq_of_le hloops with hloops | hloops
  · exact Tree.bulk_lt_of_loops hloops
  · exact Prod.Lex.toLex_lt_toLex.mpr (.inr ⟨hloops, Prod.Lex.toLex_lt_toLex.mpr (.inl h)⟩)

theorem Tree.bulk_lt_of_weight (hloops : Block.total Node.loops t'.body ≤ Block.total Node.loops t.body)
    (hcalls : Block.total Node.testCalls t'.body ≤ Block.total Node.testCalls t.body)
    (h : Block.total Node.weight t'.body + 1 ≤ Block.total Node.weight t.body) : t'.bulk < t.bulk := by
  rcases Nat.lt_or_eq_of_le hcalls with hcalls | hcalls
  · exact Tree.bulk_lt_of_testCalls hloops hcalls
  · rcases Nat.lt_or_eq_of_le hloops with hloops | hloops
    · exact Tree.bulk_lt_of_loops hloops
    · exact Prod.Lex.toLex_lt_toLex.mpr (.inr ⟨hloops, Prod.Lex.toLex_lt_toLex.mpr (.inr ⟨hcalls, h⟩)⟩)

/-- A rule that takes nodes away and brings in no others but simple statements. -/
theorem Tree.bulk_lt_of_counts
    (h : ∀ {d f}, Node.Counts d f → Block.total f t'.body + d ≤ Block.total f t.body) : t'.bulk < t.bulk :=
  Tree.bulk_lt_of_weight (h Node.counts_loops) (h Node.counts_testCalls) (h Node.counts_weight)

/-! ### Branches, jumps and assignments -/

section

variable {d : Nat} {f : Node Label → Nat}

/-- The condition and the statement itself are not among what a statement comes down to. -/
theorem Stmt.total_survivors {s : Stmt Label} {survivors : Block Label} (hf : Node.Counts d f)
    (h : s.survivors? = some survivors) : Block.total f survivors + d + d ≤ Node.total f (.stmt s) := by
  have hstmt := hf.least (.stmt s)
  unfold Stmt.survivors? at h
  split at h
  · rename_i l k value body orelse
    have htest := hf.least (.expr (.constant k value))
    have htotal : Node.total f (.stmt (.ifElse l (.constant k value) body orelse)) =
        f (.stmt (.ifElse l (.constant k value) body orelse)) + f (.expr (.constant k value)) +
          Block.total f body + Block.total f orelse := by
      rw [Node.total_eq, Block.total_eq, Block.total_eq]
      simp only [Node.children, List.map_cons, List.map_append, List.sum_cons, List.sum_append,
        Node.total_eq (.expr _), Expr.children, List.map_nil, List.sum_nil]
      omega
    cases h
    split <;> omega
  · rename_i l k value body
    have htest := hf.least (.expr (.constant k value))
    split at h
    · cases h
    · cases h
      have hconstant := Node.le_total (f := f) (.expr (.constant k value))
      rw [Node.total_whileLoop, Block.total_nil]
      omega
  · cases h

theorem removeDeadBranch?_bulk_lt (h : t.HasLabels) (hresult : t.removeDeadBranch? label = some t') :
    t'.bulk < t.bulk := by
  obtain ⟨focus, hfocus, hresult⟩ := Option.bind_eq_some_iff.mp hresult
  obtain ⟨survivors, hsurvivors, hresult⟩ := Option.bind_eq_some_iff.mp hresult
  cases hresult
  refine Tree.bulk_lt_of_counts fun {d f} hf => ?_
  have htotal := Stmt.total_survivors hf hsurvivors
  have hpass := hf.simple (.pass t.next) rfl
  refine h.total_refocus t.next hfocus hf.own ?_ fun _ => ?_
  · rw [Focus.total_block, Block.total_append, Block.total_append]
    omega
  · rw [Focus.total_block]
    omega

theorem removeRest?_bulk_lt (h : t.HasLabels) (hresult : t.removeRest? label = some t') : t'.bulk < t.bulk := by
  obtain ⟨focus, hfocus, hresult⟩ := Option.bind_eq_some_iff.mp hresult
  split at hresult
  · cases hresult
  · rename_i hafter
    cases hresult
    refine Tree.bulk_lt_of_counts fun {d f} hf => ?_
    obtain ⟨s, rest, hrest⟩ := List.exists_cons_of_ne_nil fun hnil => hafter (List.isEmpty_iff.mpr hnil)
    have hleast := Nat.le_trans (hf.least (.stmt s)) (Node.le_total _)
    refine h.total_refocus t.next hfocus hf.own ?_ fun hnil => ?_
    · rw [Focus.total_block, hrest, Block.total_append, Block.total_cons, Block.total_cons, Block.total_nil]
      omega
    · exact absurd hnil (by simp)

theorem augment?_bulk_lt (h : t.HasLabels) (hresult : t.augment? label = some t') : t'.bulk < t.bulk := by
  obtain ⟨focus, hfocus, hresult⟩ := Option.bind_eq_some_iff.mp hresult
  obtain ⟨⟨target, op, value⟩, hassignment, hresult⟩ := Option.bind_eq_some_iff.mp hresult
  cases hresult
  obtain ⟨l, l', k, k', m, x, literal, hs, -⟩ := Stmt.selfAssignment?_eq_some hassignment
  refine Tree.bulk_lt_of_counts fun {d f} hf => ?_
  refine h.total_refocus (t.next + 1) hfocus hf.own ?_ fun hnil => absurd hnil (by simp)
  -- An operation less, and the variable is read by the assignment itself.
  have hassign := hf.simple (.assign l target (.binary l' op (.name k' x) value)) rfl
  have haugment := hf.simple (.augAssign t.next target op value) rfl
  have hbinary := hf.least (.expr (.binary l' op (.name k' x) value))
  have hold : Node.total f (.expr (.binary l' op (.name k' x) value)) =
      f (.expr (.binary l' op (.name k' x) value)) + Node.total f (.expr (.name k' x)) +
        Node.total f (.expr value) := by
    rw [Node.total_eq]
    simp [Node.children, Expr.children, Nat.add_assoc]
  have hnew : Node.total f (.stmt (.augAssign t.next target op value)) =
      f (.stmt (.augAssign t.next target op value)) + Node.total f (.expr target) + Node.total f (.expr value) := by
    rw [Node.total_eq]
    simp [Node.children, Nat.add_assoc]
  rw [Focus.total_block, Block.total_append, Block.total_cons, hs, Node.total_assign, hold, hnew]
  omega

end

/-! ### Loops over sequences -/

theorem replaceLoop_bulk_lt (h : t.HasLabels) {loop : SimpleLoop} (hloop : loop.Matches t label)
    (value : Expr Label) : (t.replaceLoop loop value next).bulk < t.bulk := by
  obtain ⟨l, hbefore⟩ := hloop.before
  obtain ⟨l', s, hstmt, -⟩ := hloop.stmt
  have hone : Node.loops (.stmt loop.focus.stmt) = 1 := by
    rw [hstmt]
    rfl
  have hleast := Node.le_total (f := Node.loops) (.stmt loop.focus.stmt)
  have hzero : ∀ e : Expr Label, Node.total Node.loops (.expr e) = 0 := Node.total_expr_eq_zero fun _ => rfl
  refine Tree.bulk_lt_of_loops
    (h.total_refocus _ hloop.focus Node.counts_loops.own ?_ fun hnil => absurd hnil (by simp))
  rw [Focus.total_block, hbefore, Block.total_append, Block.total_append, Block.total_cons, Node.total_assign, hzero,
    hzero]
  show Block.total Node.loops loop.before + (0 + Block.total Node.loops loop.focus.after) + 1 ≤ _
  omega

theorem accumulationToSum?_bulk_lt (h : t.HasLabels) (hresult : t.accumulationToSum? label = some t') :
    t'.bulk < t.bulk := by
  obtain ⟨⟨loop, start, element⟩, haccumulation, hresult⟩ := Option.bind_eq_some_iff.mp hresult
  obtain ⟨hloop, -⟩ := accumulation?_eq_some haccumulation
  dsimp only at hresult
  split at hresult <;> cases hresult <;> exact replaceLoop_bulk_lt h hloop _

theorem appendToComprehension?_bulk_lt (h : t.HasLabels) (hresult : t.appendToComprehension? label = some t') :
    t'.bulk < t.bulk := by
  obtain ⟨⟨loop, element⟩, happend, hresult⟩ := Option.bind_eq_some_iff.mp hresult
  cases hresult
  exact replaceLoop_bulk_lt h (appendLoop?_eq_some happend).1 _

/-! ### Constants -/

section

variable {new : Expr Label}

theorem Node.loops_substitute (node : Node Label) : (node.substitute label new).loops = node.loops := by
  cases node with
  | expr => rfl
  | stmt s => cases s <;> rfl

theorem Node.calls_substitute {node : Node Label} (h : node.isExprAt label = false) :
    (node.substitute label new).calls = node.calls := by
  cases node with
  | stmt => rfl
  | expr e =>
    rw [Node.substitute_expr h]
    cases e <;> rfl

theorem Node.weight_substitute {node : Node Label} (h : node.isExprAt label = false) :
    (node.substitute label new).weight = node.weight := by
  cases node with
  | stmt s =>
    have hempty : (s.mapExprs (Expr.substitute label new)).hasEmptyBody = s.hasEmptyBody := by
      cases s <;> first | rfl | exact Block.isEmpty_mapExprs _ _
    simp only [Node.substitute, Node.weight, hempty]
  | expr e =>
    rw [Node.substitute_expr h]
    cases e <;> rfl

/-- Where something without calls is put in there are no more calls afterwards, and fewer if it takes the place
of a call. -/
theorem Node.total_calls_substitute {d : Nat} {e : Expr Label} (hnew : Node.total Node.calls (.expr new) = 0)
    (hcalls : ∀ part ∈ e.subterms, part.tag = label → d ≤ Node.calls (.expr part)) :
    Node.total Node.calls (.expr (Expr.substitute label new e)) + min d (e.nodes.countP (Node.isExprAt label)) ≤
      Node.total Node.calls (.expr e) := by
  refine Node.total_substitute (fun node h => Nat.le_of_eq (Node.calls_substitute h)) (.expr e)
    fun part hpart htag => ?_
  obtain ⟨part', hpart', heq⟩ := List.mem_map.mp hpart
  cases heq
  rw [hnew, Nat.zero_add]
  exact Nat.le_trans (hcalls part hpart' htag) (Node.le_total _)

theorem Node.testCalls_substitute (hnew : Node.total Node.calls (.expr new) = 0) (node : Node Label) :
    (node.substitute label new).testCalls ≤ node.testCalls := by
  cases node with
  | expr => exact Nat.le_refl _
  | stmt s =>
    cases s with
    | whileLoop l test body =>
      exact Nat.le_trans (Nat.le_add_right ..)
        (Node.total_calls_substitute (d := 0) hnew fun _ _ _ => Nat.zero_le _)
    | _ => exact Nat.le_refl _

end

/-- An operation weighs more than its value: it has two operands, and the value may have a sign. -/
theorem Expr.total_weight_folded {e : Expr Label} {value : Int64} (h : e.folded? = some value) (l : Label) :
    Node.total Node.weight (.expr (.constant l (.int value))) + 1 ≤ Node.total Node.weight (.expr e) := by
  cases e with
  | binary l' op left right =>
    have hleft := Nat.le_trans (Node.counts_weight.least (.expr left)) (Node.le_total _)
    have hright := Nat.le_trans (Node.counts_weight.least (.expr right)) (Node.le_total _)
    have htotal : Node.total Node.weight (.expr (.binary l' op left right)) =
        1 + Node.total Node.weight (.expr left) + Node.total Node.weight (.expr right) := by
      rw [Node.total_eq]
      simp [Node.children, Expr.children, Node.weight, Nat.add_assoc]
    have hvalue : Node.total Node.weight (.expr (.constant l (.int value))) ≤ 2 := by
      show (if value < 0 then 2 else 1) + 0 ≤ 2
      split <;> omega
    omega
  | _ => cases h

theorem fold?_bulk_lt (h : t.HasLabels) (hresult : t.fold? label = some t') : t'.bulk < t.bulk := by
  obtain ⟨e, he, hresult⟩ := Option.bind_eq_some_iff.mp hresult
  obtain ⟨value, hfolded, hresult⟩ := Option.bind_eq_some_iff.mp hresult
  cases hresult
  obtain ⟨hmem, rfl⟩ := expr?_eq_some he
  let new : Expr Label := .constant t.next (.int value)
  have hzero : ∀ e : Expr Label, Node.total Node.loops (.expr e) = 0 := Node.total_expr_eq_zero fun _ => rfl
  have hzero' : ∀ e : Expr Label, Node.total Node.testCalls (.expr e) = 0 := Node.total_expr_eq_zero fun _ => rfl
  have hloops : Block.total Node.loops (Block.substituteExpr e.tag new t.body) ≤ Block.total Node.loops t.body :=
    Nat.le_trans (Nat.le_add_right ..) <| Block.total_substituteExpr (d := 0)
      (fun node _ => Nat.le_of_eq (Node.loops_substitute node)) fun part _ _ => by rw [hzero, hzero]
  have hcalls : Block.total Node.testCalls (Block.substituteExpr e.tag new t.body) ≤
      Block.total Node.testCalls t.body :=
    Nat.le_trans (Nat.le_add_right ..) <| Block.total_substituteExpr (d := 0)
      (fun node _ => Node.testCalls_substitute rfl node) fun part _ _ => by rw [hzero', hzero']
  have hcount : 0 < (Block.nodes t.body).countP (Node.isExprAt e.tag) :=
    List.countP_pos_iff.mpr ⟨.expr e, hmem, decide_eq_true rfl⟩
  have hweight : Block.total Node.weight (Block.substituteExpr e.tag new t.body) +
      min 1 ((Block.nodes t.body).countP (Node.isExprAt e.tag)) ≤ Block.total Node.weight t.body :=
    Block.total_substituteExpr (fun node hat => Nat.le_of_eq (Node.weight_substitute hat))
      fun part hpart htag => by
        cases List.inj_on_of_nodup_map h.nodup hpart hmem htag
        exact Expr.total_weight_folded hfolded t.next
  rw [Nat.min_eq_left hcount] at hweight
  exact Tree.bulk_lt_of_weight hloops hcalls hweight

/-! ### Lengths -/

theorem Expr.calls_of_lengthOf? {e : Expr Label} {name : String} (h : e.lengthOf? = some name) :
    Node.calls (.expr e) = 1 := by
  cases e with
  | call => rfl
  | _ => cases h

theorem total_calls_renameCalls (next : Label) (name : String) :
    ∀ (calls : List (Expr Label × Nat)) (test : Expr Label),
      Node.total Node.calls (.expr (renameCalls next name calls test)) ≤ Node.total Node.calls (.expr test)
  | [], _ => Nat.le_refl _
  | _ :: calls, _ =>
    Nat.le_trans (total_calls_renameCalls next name calls _) <| Nat.le_trans (Nat.le_add_right ..) <|
      Node.total_calls_substitute (d := 0) rfl fun _ _ _ => Nat.zero_le _

theorem hoistLength?_bulk_lt (h : t.HasLabels) (hresult : t.hoistLength? label = some t') : t'.bulk < t.bulk := by
  obtain ⟨focus, hfocus, hresult⟩ := Option.bind_eq_some_iff.mp hresult
  obtain ⟨⟨name, calls⟩, hfixed, hresult⟩ := Option.bind_eq_some_iff.mp hresult
  obtain ⟨l, test, body, hstmt, -, hcalls, -⟩ := fixedLength?_eq_some hfixed
  rw [hstmt] at hresult
  cases calls with
  | nil => cases hresult
  | cons first rest =>
    cases hresult
    obtain ⟨hfirst, hname⟩ : first ∈ test.subterms ∧ first.lengthOf? = some name := by
      have hmem : first ∈ test.subterms.filter fun e => e.lengthOf? == some name := hcalls ▸ List.mem_cons_self ..
      simpa using hmem
    have hnodup := h.nodup_focus hfocus
    simp only [Focus.block, Block.nodes_append, Block.nodes, hstmt, Stmt.nodes, List.map_append, List.map_cons,
      Expr.map_tag_nodes, List.append_assoc, List.cons_append] at hnodup
    replace hnodup : test.labels.Nodup :=
      (List.nodup_append.mp (List.nodup_cons.mp (List.nodup_append.mp hnodup).2.1).2).1
    -- The first call gives way to a name, and the other ones bring in no calls.
    have htest (fresh : String) :
        Node.total Node.calls (.expr (renameCalls t.next fresh (first :: rest).zipIdx test)) + 1 ≤
          Node.total Node.calls (.expr test) := by
      have hrest := total_calls_renameCalls t.next fresh (rest.zipIdx 1)
        (Expr.substitute first.tag (.name (t.next + 0) fresh) test)
      have hone : Node.total Node.calls (.expr (Expr.substitute first.tag (.name (t.next + 0) fresh) test)) +
          min 1 (test.nodes.countP (Node.isExprAt first.tag)) ≤ Node.total Node.calls (.expr test) :=
        Node.total_calls_substitute rfl fun part hpart htag => by
          cases List.inj_on_of_nodup_map hnodup hpart hfirst htag
          exact Nat.le_of_eq (Expr.calls_of_lengthOf? hname).symm
      have hcount : 0 < test.nodes.countP (Node.isExprAt first.tag) :=
        List.countP_pos_iff.mpr ⟨.expr first, List.mem_map_of_mem hfirst, decide_eq_true rfl⟩
      rw [Nat.min_eq_left hcount] at hone
      exact Nat.le_trans (Nat.add_le_add_right hrest 1) hone
    replace htest := htest (freshName (Block.identifiers t.body) ("n_" ++ name))
    rw [renameCalls] at htest
    refine Tree.bulk_lt_of_testCalls
      (h.total_refocus (d := 0) _ hfocus Node.counts_loops.own ?_ fun hnil => absurd hnil (by simp))
      (h.total_refocus (d := 1) _ hfocus Node.counts_testCalls.own ?_ fun hnil => absurd hnil (by simp))
    · simp only [Focus.total_block, hstmt, Block.total_append, Block.total_cons, Node.total_assign,
        Node.total_whileLoop, Node.total_expr_eq_zero (f := Node.loops) fun _ => rfl, Node.loops]
      omega
    · simp only [Focus.total_block, hstmt, Block.total_append, Block.total_cons, Node.total_assign,
        Node.total_whileLoop, Node.total_expr_eq_zero (f := Node.testCalls) fun _ => rfl, Node.testCalls] at htest ⊢
      omega

/-- Whatever a rule makes of a tree is less bulky. -/
theorem Rule.result?_bulk_lt {rule : Rule} (h : t.HasLabels) (hresult : rule.result? t label = some t') :
    t'.bulk < t.bulk := by
  cases rule with
  | deadBranch => exact removeDeadBranch?_bulk_lt h hresult
  | unreachableCode => exact removeRest?_bulk_lt h hresult
  | constantFold => exact fold?_bulk_lt h hresult
  | augmentedAssign => exact augment?_bulk_lt h hresult
  | accumulationToSum => exact accumulationToSum?_bulk_lt h hresult
  | appendToComprehension => exact appendToComprehension?_bulk_lt h hresult
  | hoistLength => exact hoistLength?_bulk_lt h hresult

end ProgramBreeding

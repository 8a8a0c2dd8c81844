import ProgramBreeding.Proofs.Tree.Writable
import ProgramBreeding.Rule.Application

/-!
# Rules make programs that can be written down

Every rule makes a tree that can be written down of one that can.  For each of them it is said
first what the node looks like that it is applied to, then where the nodes of the new tree come
from.

## Main definitions

* `simpleLoop?_eq_some`, `accumulation?_eq_some`, `appendLoop?_eq_some`,
  `fixedLength?_eq_some` — what the rules match.
* `isIdentifier_freshName` — the name of a length is a name.
* `Rule.result?_isWritable` — what a rule makes can be written down.
-/

namespace ProgramBreeding

open Source

variable {t t' : Tree} {label : Label}

/-- A block whose nodes are all old may stand anywhere. -/
theorem Tree.IsWritable.refocus_old (h : t.IsWritable) {focus : Focus} {block : Block Label}
    (hblock : ∀ node ∈ Block.nodes block, node ∈ t.nodes) : (t.refocus focus block).IsWritable :=
  h.refocus (fun _ => False) (Nat.le_refl _) fun node hnode =>
    h.admissible (Nat.le_refl _) (hblock node hnode)

theorem removeDeadBranch?_isWritable (h : t.IsWritable) (hresult : t.removeDeadBranch? label = some t') :
    t'.IsWritable := by
  obtain ⟨focus, hfocus, hresult⟩ := Option.bind_eq_some_iff.mp hresult
  obtain ⟨survivors, hsurvivors, hresult⟩ := Option.bind_eq_some_iff.mp hresult
  cases hresult
  obtain ⟨-, hold⟩ := Block.mem_of_focus? hfocus
  refine h.refocus_old fun node hnode => hold node ?_
  have hsurvivor : node ∈ Block.nodes survivors → node ∈ focus.stmt.nodes := by
    generalize focus.stmt = s at hsurvivors
    unfold Stmt.survivors? at hsurvivors
    split at hsurvivors
    · cases hsurvivors
      intro hnode
      split at hnode <;> simp [Stmt.nodes, hnode]
    · split at hsurvivors
      · cases hsurvivors
      · cases hsurvivors
        exact fun hnode => nomatch hnode
    · cases hsurvivors
  simp only [Block.nodes_append, List.mem_append] at hnode
  simp only [Focus.block, Block.nodes_append, Block.nodes, List.mem_append]
  rcases hnode with (hnode | hnode) | hnode
  · exact .inl hnode
  · exact .inr (.inl (hsurvivor hnode))
  · exact .inr (.inr hnode)

theorem removeRest?_isWritable (h : t.IsWritable) (hresult : t.removeRest? label = some t') :
    t'.IsWritable := by
  obtain ⟨focus, hfocus, hresult⟩ := Option.bind_eq_some_iff.mp hresult
  split at hresult
  · cases hresult
  · cases hresult
    obtain ⟨-, hold⟩ := Block.mem_of_focus? hfocus
    refine h.refocus_old fun node hnode => hold node ?_
    simp only [Block.nodes_append, Block.nodes, List.append_nil, List.mem_append] at hnode
    simp only [Focus.block, Block.nodes_append, Block.nodes, List.mem_append]
    exact hnode.imp_right .inl

theorem expr?_eq_some {e : Expr Label} (h : t.expr? label = some e) :
    .expr e ∈ t.nodes ∧ e.tag = label := by
  obtain ⟨node, hnode, h⟩ := List.exists_of_findSome?_eq_some h
  split at h
  · split at h
    · cases h
      exact ⟨hnode, ‹_›⟩
    · cases h
  · cases h

/-- Folding makes no integer that cannot be written down. -/
theorem BinaryOp.fold?_ne_minValue {op : BinaryOp} {a b n : Int64} (h : op.fold? a b = some n) :
    n ≠ Int64.minValue := by
  have hne := (Option.filter_eq_some_iff.mp h).2
  simpa using hne

theorem fold?_isWritable (h : t.IsWritable) (hresult : t.fold? label = some t') : t'.IsWritable := by
  obtain ⟨e, he, hresult⟩ := Option.bind_eq_some_iff.mp hresult
  obtain ⟨value, hfolded, hresult⟩ := Option.bind_eq_some_iff.mp hresult
  cases hresult
  obtain ⟨hmem, rfl⟩ := expr?_eq_some he
  cases e with
  | binary l op left right =>
    obtain ⟨a, -, hfolded⟩ := Option.bind_eq_some_iff.mp hfolded
    obtain ⟨b, -, hfolded⟩ := Option.bind_eq_some_iff.mp hfolded
    refine h.substituteExpr (fun _ => False) (Nat.le_succ _) ?_ ?_
    · intro node hnode
      cases List.mem_singleton.mp hnode
      exact ⟨BinaryOp.fold?_ne_minValue hfolded, .inr ⟨Nat.le_refl _, Nat.lt_succ_self _, False.elim⟩⟩
    · -- An operation is no target, and no target has its label.
      exact fun htarget => nomatch h.targets _ hmem htarget
  | _ => cases hfolded

/-- A statement of admissible nodes may stand between old ones. -/
theorem Tree.IsWritable.refocus_between (h : t.IsWritable) (targets : Label → Prop)
    {focus : Focus} {next : Label} (hnext : t.next ≤ next) {before after : Block Label}
    {s : Stmt Label}
    (hbefore : ∀ node ∈ Block.nodes before, node ∈ t.nodes)
    (hs : ∀ node ∈ s.nodes, node.Admissible t next targets)
    (hafter : ∀ node ∈ Block.nodes after, node ∈ t.nodes) :
    ({ t with next }.refocus focus (before ++ s :: after)).IsWritable := by
  refine h.refocus targets hnext fun node hnode => ?_
  simp only [Block.nodes_append, Block.nodes, List.mem_append] at hnode
  rcases hnode with hnode | hnode | hnode
  · exact h.admissible hnext (hbefore node hnode)
  · exact hs node hnode
  · exact h.admissible hnext (hafter node hnode)

theorem Expr.isName_iff {α : Type} {name : String} {e : Expr α} :
    e.isName name = true ↔ ∃ l, e = .name l name := by
  cases e <;> simp [Expr.isName]

/-- What an assignment of a variable to itself and a number looks like. -/
theorem Stmt.selfAssignment?_eq_some {α : Type} {s : Stmt α} {target value : Expr α} {op : BinaryOp}
    (h : s.selfAssignment? = some (target, op, value)) :
    ∃ l l' k k' m x literal, s = .assign l target (.binary l' op (.name k' x) value) ∧ target = .name k x ∧
      value = .constant m literal ∧ op ≠ .pow ∧ ((∃ i, literal = .int i) ∨ ∃ y, literal = .float y) := by
  unfold Stmt.selfAssignment? at h
  split at h
  · rename_i literal
    rw [Option.ite_none_right_eq_some] at h
    obtain ⟨hnumeric, h⟩ := h
    cases h
    simp only [Bool.and_eq_true, bne_iff_ne, ne_eq] at hnumeric
    obtain ⟨⟨⟨hnumber, hop⟩, -⟩, hleft⟩ := hnumeric
    obtain ⟨k', rfl⟩ := Expr.isName_iff.mp hleft
    refine ⟨_, _, _, k', _, _, literal, rfl, rfl, rfl, hop, ?_⟩
    cases literal <;> simp at hnumber ⊢
  · cases h

theorem augment?_isWritable (h : t.IsWritable) (hresult : t.augment? label = some t') :
    t'.IsWritable := by
  obtain ⟨focus, hfocus, hresult⟩ := Option.bind_eq_some_iff.mp hresult
  obtain ⟨⟨target, op, value⟩, hassignment, hresult⟩ := Option.bind_eq_some_iff.mp hresult
  cases hresult
  obtain ⟨-, hold⟩ := Block.mem_of_focus? hfocus
  obtain ⟨_, _, _, _, _, _, _, hs, hname, -, hop, -⟩ := Stmt.selfAssignment?_eq_some hassignment
  have hassignable : target.isAssignable = true := hname ▸ rfl
  simp only [Focus.block, Block.nodes_append, Block.nodes, List.mem_append, hs] at hold
  have htarget : t.isTarget target.tag = true :=
    Tree.isTarget_iff.mpr ⟨_, _, hold _ (.inr (.inl (List.mem_cons_self ..))), rfl, rfl⟩
  have htargetNodes : ∀ node ∈ target.nodes, node ∈ t.nodes := fun node hnode =>
    hold node (.inr (.inl (.tail _ (List.mem_append_left _ hnode))))
  have hvalueNodes : ∀ node ∈ value.nodes, node ∈ t.nodes := fun node hnode => by
    refine hold node (.inr (.inl (.tail _ (List.mem_append_right _ ?_))))
    obtain ⟨e, he, rfl⟩ := List.mem_map.mp hnode
    exact List.mem_map_of_mem (by simp [Expr.subterms, he])
  have hnext := Nat.le_succ t.next
  refine h.refocus_between (fun _ => False) hnext (fun node hnode => hold node (.inl hnode))
    (fun node hnode => ?_) fun node hnode => hold node (.inr (.inr hnode))
  simp only [Stmt.nodes, List.mem_cons, List.mem_append] at hnode
  rcases hnode with rfl | hnode | hnode
  · exact ⟨⟨hassignable, hop⟩, Nat.lt_succ_self _, fun _ heq => .inl (Option.some.inj heq ▸ htarget)⟩
  · exact h.admissible hnext (htargetNodes node hnode)
  · exact h.admissible hnext (hvalueNodes node hnode)

/-! ### Loops -/

/-- The statement of a loop's body, or the one under its condition. -/
theorem Stmt.guarded?_eq_some {α : Type} {s inner : Stmt α} {cond : Option (Expr α)}
    (h : s.guarded? = some (inner, cond)) :
    s = inner ∧ cond = none ∨ ∃ l test, s = .ifElse l test [inner] [] ∧ cond = some test := by
  unfold Stmt.guarded? at h
  split at h <;> cases h
  · exact .inr ⟨_, _, rfl, rfl⟩
  · exact .inl ⟨rfl, rfl⟩

/-- What a simple loop looks like. -/
structure SimpleLoop.Matches (t : Tree) (label : Label) (loop : SimpleLoop) : Prop where
  focus : Block.focus? label t.body = some loop.focus
  before : ∃ l, loop.focus.before = loop.before ++ [.assign l loop.target loop.init]
  target : ∃ l, loop.target = .name l loop.name
  stmt : ∃ l s, loop.focus.stmt = .forLoop l loop.var loop.source [s] ∧
    s.guarded? = some (loop.inner, loop.cond)
  name_ne : loop.name ≠ loop.var
  source : loop.source.mentions loop.name = false
  cond : loop.cond.any (Expr.mentions loop.name) = false
  unread : t.isReadAround loop.focus.stmt loop.var = false

theorem simpleLoop?_eq_some {loop : SimpleLoop} (h : t.simpleLoop? label = some loop) :
    loop.Matches t label := by
  obtain ⟨focus, hfocus, h⟩ := Option.bind_eq_some_iff.mp h
  split at h
  · rename_i hstmt hlast
    obtain ⟨⟨inner, cond⟩, hguarded, h⟩ := Option.bind_eq_some_iff.mp h
    dsimp only at h
    split at h
    · cases h
    · rename_i hunguarded
      cases h
      simp only [Bool.or_eq_true, not_or, Bool.not_eq_true, beq_eq_false_iff_ne] at hunguarded
      obtain ⟨⟨⟨hne, hsource⟩, hcond⟩, hunread⟩ := hunguarded
      obtain ⟨ys, hbefore⟩ := List.getLast?_eq_some_iff.mp hlast
      exact ⟨hfocus, ⟨_, by rw [hbefore, List.dropLast_concat]⟩, ⟨_, rfl⟩, ⟨_, _, hstmt, hguarded⟩,
        hne, hsource, hcond, hunread⟩
  · cases h

namespace SimpleLoop.Matches

variable {loop : SimpleLoop} {node : Node Label}

/-- The statements around a simple loop are nodes of the tree. -/
theorem mem_block (hloop : loop.Matches t label) (h : node ∈ Block.nodes loop.focus.block) :
    node ∈ t.nodes :=
  (Block.mem_of_focus? hloop.focus).2 node h

theorem mem_before (hloop : loop.Matches t label) (h : node ∈ Block.nodes loop.before) :
    node ∈ t.nodes := by
  obtain ⟨l, hbefore⟩ := hloop.before
  exact hloop.mem_block (by simp [Focus.block, hbefore, Block.nodes_append, h])

theorem mem_after (hloop : loop.Matches t label) (h : node ∈ Block.nodes loop.focus.after) :
    node ∈ t.nodes :=
  hloop.mem_block (by simp [Focus.block, Block.nodes_append, Block.nodes, h])

/-- The assignment before a simple loop is a statement of the tree. -/
theorem mem_assignment (hloop : loop.Matches t label) :
    ∃ l, ∀ node ∈ (Stmt.assign l loop.target loop.init).nodes, node ∈ t.nodes := by
  obtain ⟨l, hbefore⟩ := hloop.before
  refine ⟨l, fun node h => hloop.mem_block ?_⟩
  simp [Focus.block, hbefore, Block.nodes_append, Block.nodes, h]

theorem mem_stmt (hloop : loop.Matches t label) (h : node ∈ loop.focus.stmt.nodes) :
    node ∈ t.nodes :=
  hloop.mem_block (by simp [Focus.block, Block.nodes_append, Block.nodes, h])

theorem mem_source (hloop : loop.Matches t label) (h : node ∈ loop.source.nodes) :
    node ∈ t.nodes := by
  obtain ⟨l, s, hstmt, -⟩ := hloop.stmt
  exact hloop.mem_stmt (by simp [hstmt, Stmt.nodes, h])

theorem mem_inner (hloop : loop.Matches t label) (h : node ∈ loop.inner.nodes) :
    node ∈ t.nodes := by
  obtain ⟨l, s, hstmt, hguarded⟩ := hloop.stmt
  refine hloop.mem_stmt ?_
  rcases Stmt.guarded?_eq_some hguarded with ⟨rfl, -⟩ | ⟨l', test, rfl, -⟩
  · simp [hstmt, Stmt.nodes, Block.nodes, h]
  · simp [hstmt, Stmt.nodes, Block.nodes, h]

theorem mem_cond (hloop : loop.Matches t label) {test : Expr Label} (hcond : loop.cond = some test)
    (h : node ∈ test.nodes) : node ∈ t.nodes := by
  obtain ⟨l, s, hstmt, hguarded⟩ := hloop.stmt
  refine hloop.mem_stmt ?_
  rcases Stmt.guarded?_eq_some hguarded with ⟨rfl, hnone⟩ | ⟨l', test', rfl, hsome⟩
  · cases hcond.symm.trans hnone
  · cases hcond.symm.trans hsome
    simp [hstmt, Stmt.nodes, Block.nodes, h]

theorem isIdentifier_var (hloop : loop.Matches t label) (h : t.IsWritable) :
    IsIdentifier loop.var := by
  obtain ⟨l, s, hstmt, -⟩ := hloop.stmt
  have hmem : .stmt (.forLoop l loop.var loop.source [s]) ∈ t.nodes :=
    hloop.mem_stmt (by simp [hstmt, Stmt.nodes])
  exact h.nodes _ hmem

end SimpleLoop.Matches

/-- A simple loop may give way to the assignment of an expression of admissible nodes. -/
theorem Tree.IsWritable.replaceLoop (h : t.IsWritable) {loop : SimpleLoop}
    (hloop : loop.Matches t label) {value : Expr Label} {next : Label} (hnext : t.next ≤ next)
    (hvalue : ∀ node ∈ value.nodes, node.Admissible t next fun _ => False) :
    (t.replaceLoop loop value next).IsWritable := by
  obtain ⟨l, hassignment⟩ := hloop.mem_assignment
  obtain ⟨l', htarget⟩ := hloop.target
  have hnext' := Nat.le_succ_of_le hnext
  have hisTarget : t.isTarget loop.target.tag = true :=
    Tree.isTarget_iff.mpr ⟨_, _, hassignment _ (List.mem_cons_self ..), rfl, rfl⟩
  refine h.refocus_between (fun _ => False) hnext' (fun node => hloop.mem_before) (fun node hnode => ?_)
    fun node => hloop.mem_after
  simp only [Stmt.nodes, List.mem_cons, List.mem_append] at hnode
  rcases hnode with rfl | hnode | hnode
  · refine ⟨by rw [htarget]; rfl, Nat.lt_succ_self next, fun target htarget' => .inl ?_⟩
    cases htarget'
    exact hisTarget
  · exact h.admissible hnext' (hassignment node (.tail _ (List.mem_append_left _ hnode)))
  · exact (hvalue node hnode).mono (Nat.le_succ next)

/-- A new expression below which everything is admissible. -/
theorem Expr.admissible_of_below {e : Expr Label} {next : Label} (h : e.IsWritable)
    (hge : t.next ≤ e.tag) (hlt : e.tag < next) {below : List (Expr Label)}
    (hsubterms : e.subterms = e :: below)
    (hbelow : ∀ e' ∈ below, (Node.expr e').Admissible t next fun _ => False) :
    ∀ node ∈ e.nodes, node.Admissible t next fun _ => False := by
  intro node hnode
  obtain ⟨e', he', rfl⟩ := List.mem_map.mp hnode
  rw [hsubterms] at he'
  rcases List.mem_cons.mp he' with rfl | he'
  · exact ⟨h, .inr ⟨hge, hlt, False.elim⟩⟩
  · exact hbelow e' he'

/-- What a simple loop computes may be written as a comprehension. -/
theorem SimpleLoop.Matches.comprehension_admissible {loop : SimpleLoop}
    (hloop : loop.Matches t label) (h : t.IsWritable) (kind : ComprehensionKind)
    {element : Expr Label} (helement : ∀ node ∈ element.nodes, node ∈ t.nodes) :
    ∀ node ∈ (Expr.comprehension t.next kind element loop.var loop.source loop.cond).nodes,
      node.Admissible t (t.next + 1) fun _ => False := by
  have hnext := Nat.le_succ t.next
  refine Expr.admissible_of_below (hloop.isIdentifier_var h) (Nat.le_refl _) (Nat.lt_succ_self _)
    rfl fun e' he' => h.admissible hnext ?_
  simp only [List.mem_append] at he'
  rcases he' with (he' | he') | he'
  · exact helement _ (List.mem_map_of_mem he')
  · exact hloop.mem_source (List.mem_map_of_mem he')
  · cases hcond : loop.cond with
    | none => rw [hcond] at he'; cases he'
    | some test =>
      rw [hcond] at he'
      exact hloop.mem_cond hcond (List.mem_map_of_mem he')

/-- What a loop that appends looks like. -/
theorem appendLoop?_eq_some {loop : SimpleLoop} {element : Expr Label}
    (h : t.appendLoop? label = some (loop, element)) :
    loop.Matches t label ∧ (∃ l, loop.init = .list l []) ∧
      (∃ l l' l'' receiver, loop.inner = .expr l (.call l' (.attribute l'' receiver "append") [element]) ∧
        receiver.isName loop.name = true) ∧
      element.mentions loop.name = false := by
  obtain ⟨loop', hloop, h⟩ := Option.bind_eq_some_iff.mp h
  split at h
  · rename_i hinit hinner
    rw [Option.ite_none_right_eq_some] at h
    obtain ⟨hguard, h⟩ := h
    cases h
    simp only [Bool.and_eq_true, beq_iff_eq, Bool.not_eq_true'] at hguard
    obtain ⟨⟨rfl, hreceiver⟩, helement⟩ := hguard
    exact ⟨simpleLoop?_eq_some hloop, ⟨_, hinit⟩, ⟨_, _, _, _, hinner, hreceiver⟩, helement⟩
  · cases h

theorem appendToComprehension?_isWritable (h : t.IsWritable)
    (hresult : t.appendToComprehension? label = some t') : t'.IsWritable := by
  obtain ⟨⟨loop, element⟩, happend, hresult⟩ := Option.bind_eq_some_iff.mp hresult
  cases hresult
  obtain ⟨hloop, -, ⟨l, l', l'', receiver, hinner, -⟩, -⟩ := appendLoop?_eq_some happend
  have helement : ∀ node ∈ element.nodes, node ∈ t.nodes := fun node hnode => by
    obtain ⟨e, he, rfl⟩ := List.mem_map.mp hnode
    refine hloop.mem_inner ?_
    rw [hinner]
    exact .tail _ (List.mem_map_of_mem (by simp [Expr.subterms, Expr.subtermsAll, he]))
  exact h.replaceLoop hloop (Nat.le_succ _) (hloop.comprehension_admissible h .list helement)

/-- What a loop that adds up looks like. -/
theorem accumulation?_eq_some {loop : SimpleLoop} {start : Int64} {element : Expr Label}
    (h : t.accumulation? label = some (loop, start, element)) :
    loop.Matches t label ∧ loop.init.intValue? = some start ∧
      (∃ l target, loop.inner = .augAssign l target .add element ∧
        target.isName loop.name = true) ∧
      element.mentions loop.name = false ∧ "sum" ∉ Block.boundNames t.body := by
  obtain ⟨loop', hloop, h⟩ := Option.bind_eq_some_iff.mp h
  obtain ⟨start', hstart, h⟩ := Option.bind_eq_some_iff.mp h
  split at h
  · rename_i hinner
    rw [Option.ite_none_right_eq_some] at h
    obtain ⟨hguard, h⟩ := h
    cases h
    simp only [Bool.and_eq_true, Bool.not_eq_true', List.contains_eq_mem, decide_eq_false_iff_not]
      at hguard
    obtain ⟨⟨htarget, helement⟩, hsum⟩ := hguard
    exact ⟨simpleLoop?_eq_some hloop, hstart, ⟨_, _, hinner, htarget⟩, helement, hsum⟩
  · cases h

theorem isIdentifier_sum : IsIdentifier "sum" :=
  ⟨⟨'s', ['u', 'm'], rfl, by decide, by decide⟩, by decide⟩

/-- The start of a loop that adds up can be written down. -/
theorem intValue?_ne_minValue {e : Expr Label} {n : Int64}
    (hwritable : ∀ e' ∈ e.subterms, e'.IsWritable) (h : e.intValue? = some n) :
    n ≠ Int64.minValue := by
  unfold Expr.intValue? at h
  split at h
  · cases h
    exact hwritable _ (List.mem_singleton_self _)
  · rintro rfl
    have hopposite := Checked.toInt_of_word? h
    have hmin : Int64.minValue.toInt = -2 ^ 63 := by decide
    rename_i m
    have hlt := Int64.toInt_lt m
    omega
  · cases h

/-- The sum of what is admissible. -/
theorem total_admissible {argument : Expr Label} {next : Label} (hge : t.next ≤ next)
    (hargument : ∀ node ∈ argument.nodes, node.Admissible t next fun _ => False) :
    ∀ node ∈ (Expr.call (next + 1) (.name next "sum") [argument]).nodes,
      node.Admissible t (next + 2) fun _ => False := by
  refine Expr.admissible_of_below (e := .call (next + 1) (.name next "sum") [argument]) trivial
    (Nat.le_succ_of_le hge) (Nat.lt_succ_self _) rfl fun e' he' => ?_
  simp only [Expr.subterms, Expr.subtermsAll, List.append_nil, List.mem_append,
    List.mem_singleton] at he'
  rcases he' with rfl | he'
  · exact ⟨isIdentifier_sum, .inr ⟨hge, Nat.lt_succ_of_lt (Nat.lt_succ_self _), False.elim⟩⟩
  · exact (hargument _ (List.mem_map_of_mem he')).mono (Nat.le_add_right next 2)

theorem accumulationToSum?_isWritable (h : t.IsWritable)
    (hresult : t.accumulationToSum? label = some t') : t'.IsWritable := by
  obtain ⟨⟨loop, start, element⟩, haccumulation, hresult⟩ := Option.bind_eq_some_iff.mp hresult
  obtain ⟨hloop, hstart, ⟨l, target, hinner, -⟩, -⟩ := accumulation?_eq_some haccumulation
  have helement : ∀ node ∈ element.nodes, node ∈ t.nodes := fun node hnode => by
    refine hloop.mem_inner ?_
    rw [hinner]
    exact .tail _ (List.mem_append_right _ hnode)
  dsimp only at hresult
  generalize hp : (if loop.cond.isNone && element.isName loop.var then (loop.source, t.next)
    else (.comprehension t.next .generator element loop.var loop.source loop.cond,
      t.next + 1)) = p at hresult
  obtain ⟨hnext, hargument⟩ :
      t.next ≤ p.2 ∧ ∀ node ∈ p.1.nodes, node.Admissible t p.2 fun _ => False := by
    rw [← hp]
    split
    · exact ⟨Nat.le_refl _, fun node hnode => h.admissible (Nat.le_refl _) (hloop.mem_source hnode)⟩
    · exact ⟨Nat.le_succ _, hloop.comprehension_admissible h .generator helement⟩
  have htotal := total_admissible hnext hargument
  split at hresult
  · cases hresult
    exact h.replaceLoop hloop (Nat.le_add_right_of_le hnext) htotal
  · cases hresult
    obtain ⟨l', hassignment⟩ := hloop.mem_assignment
    have hmin : start ≠ Int64.minValue := by
      refine intValue?_ne_minValue (fun e' he' => ?_) hstart
      exact h.nodes _ (hassignment _ (.tail _ (List.mem_append_right _ (List.mem_map_of_mem he'))))
    refine h.replaceLoop hloop (Nat.le_add_right_of_le hnext) ?_
    refine Expr.admissible_of_below
      (e := .binary (p.2 + 3) .add (.constant (p.2 + 2) (.int start))
        (.call (p.2 + 1) (.name p.2 "sum") [p.1]))
      trivial (Nat.le_add_right_of_le hnext) (Nat.lt_succ_self _) rfl fun e' he' => ?_
    rcases List.mem_append.mp he' with he' | he'
    · rw [List.mem_singleton.mp he']
      exact ⟨hmin, .inr ⟨Nat.le_add_right_of_le hnext, Nat.lt_add_of_pos_right Nat.two_pos,
        False.elim⟩⟩
    · exact (htotal _ (List.mem_map_of_mem he')).mono (Nat.le_add_right _ 2)

/-! ### Lengths -/

theorem freshName_eq (taken : List String) (base : String) :
    freshName taken base = base ∨ ∃ k : Nat, freshName taken base = base ++ toString k := by
  unfold freshName
  dsimp only
  cases hfound : List.find? _ _ with
  | none => exact .inl rfl
  | some name =>
    rcases List.mem_cons.mp (List.mem_of_find?_eq_some hfound) with rfl | hname
    · exact .inl rfl
    · obtain ⟨k, -, rfl⟩ := List.mem_map.mp hname
      exact .inr ⟨k + 2, rfl⟩

theorem isWordPart_of_isWordStart {c : Char} (h : Text.isWordStart c = true) :
    Text.isWordPart c = true := by
  unfold Text.isWordPart Text.isAlphanumeric
  rcases (Bool.or_eq_true _ _).mp h with h | h <;> simp [h]

theorem isWordPart_of_isDigit {c : Char} (h : c.isDigit = true) : Text.isWordPart c = true :=
  isWordPart_of_isDigitPart (by simp [Scan.isDigitPart, h])

/-- What follows `n_` makes it a name and no keyword. -/
theorem isIdentifier_prefixed {rest : String} (h : ∀ c ∈ rest.toList, Text.isWordPart c = true) :
    IsIdentifier ("n_" ++ rest) := by
  have htext : ("n_" ++ rest).toList = 'n' :: '_' :: rest.toList := by simp
  refine ⟨⟨'n', '_' :: rest.toList, htext, by decide, ?_⟩, ?_⟩
  · intro c hc
    rcases List.mem_cons.mp hc with rfl | hc
    · decide
    · exact h c hc
  · have hspelled : ∀ keyword ∈ Symbol.keywords, keyword.spelling.toList.take 2 ≠ ['n', '_'] := by
      decide
    refine List.find?_eq_none.mpr fun keyword hkeyword heq => hspelled keyword hkeyword ?_
    rw [beq_iff_eq.mp heq, htext]
    rfl

theorem isIdentifier_freshName {name : String} (h : IsIdentifier name) (taken : List String) :
    IsIdentifier (freshName taken ("n_" ++ name)) := by
  obtain ⟨⟨c, cs, hname, hc, hcs⟩, -⟩ := h
  have hparts : ∀ c ∈ name.toList, Text.isWordPart c = true := by
    rw [hname]
    intro d hd
    rcases List.mem_cons.mp hd with rfl | hd
    · exact isWordPart_of_isWordStart hc
    · exact hcs d hd
  rcases freshName_eq taken ("n_" ++ name) with heq | ⟨k, heq⟩
  · rw [heq]
    exact isIdentifier_prefixed hparts
  · rw [heq, String.append_assoc]
    refine isIdentifier_prefixed fun d hd => ?_
    rcases List.mem_append.mp (by simpa using hd) with hd | hd
    · exact hparts d hd
    · exact isWordPart_of_isDigit (Nat.isDigit_of_mem_toDigits (by decide) (by decide) hd)

/-- What a call looks like that takes the length of a variable. -/
theorem Expr.lengthOf?_eq_some {α : Type} {e : Expr α} {name : String}
    (h : e.lengthOf? = some name) :
    ∃ l l' l'', e = .call l (.name l' "len") [.name l'' name] := by
  unfold Expr.lengthOf? at h
  split at h
  · rw [Option.ite_none_right_eq_some] at h
    obtain ⟨hcallee, h⟩ := h
    cases h
    exact ⟨_, _, _, by rw [beq_iff_eq.mp hcallee]⟩
  · cases h

/-- What a loop looks like that takes a fixed length. -/
theorem fixedLength?_eq_some {s : Stmt Label} {name : String} {calls : List (Expr Label)}
    (h : t.fixedLength? s = some (name, calls)) :
    ∃ l test body, s = .whileLoop l test body ∧
      (∃ e ∈ test.alwaysEvaluated, e.lengthOf? = some name) ∧
      calls = test.subterms.filter (fun e => e.lengthOf? == some name) ∧
      "len" ∉ Block.boundNames t.body ∧ ∀ s ∈ body, s.keepsLength name = true := by
  unfold Tree.fixedLength? at h
  split at h
  · rename_i l test body
    obtain ⟨name', hname, h⟩ := Option.bind_eq_some_iff.mp h
    rw [Option.ite_none_right_eq_some] at h
    obtain ⟨hguard, h⟩ := h
    cases h
    simp only [Bool.and_eq_true, Bool.not_eq_true', List.contains_eq_mem,
      decide_eq_false_iff_not, List.all_eq_true] at hguard
    exact ⟨l, test, body, rfl, List.exists_of_findSome?_eq_some hname, rfl, hguard⟩
  · cases h

/-- Putting names in the place of some expressions, one after the other. -/
theorem foldl_substitute_admissible {fresh : String} (hfresh : IsIdentifier fresh) {next : Label}
    {targets : Label → Prop} : ∀ (calls : List (Expr Label)) (i : Nat) (test : Expr Label),
    t.next + i + calls.length ≤ next → (∀ node ∈ test.nodes, node.Admissible t next targets) →
      ∀ node ∈ ((calls.zipIdx i).foldl (fun test (call, i) =>
        Expr.substitute call.tag (.name (t.next + i) fresh) test) test).nodes,
        node.Admissible t next targets
  | [], _, _, _, htest => htest
  | call :: calls, i, test, hnext, htest => by
    rw [List.length_cons] at hnext
    have hrest : t.next + (i + 1) + calls.length ≤ next := by
      simpa [Nat.add_assoc, Nat.add_comm, Nat.add_left_comm] using hnext
    refine foldl_substitute_admissible hfresh calls (i + 1) _ hrest ?_
    refine Node.Admissible.substitute (fun node hnode => ?_) htest
    cases List.mem_singleton.mp hnode
    have hlt : t.next + i < next :=
      Nat.lt_of_lt_of_le (Nat.lt_add_of_pos_right (Nat.succ_pos _)) hnext
    exact ⟨hfresh, .inr ⟨Nat.le_add_right _ _, hlt, fun _ => rfl⟩⟩

theorem hoistLength?_isWritable (h : t.IsWritable) (hresult : t.hoistLength? label = some t') :
    t'.IsWritable := by
  obtain ⟨focus, hfocus, hresult⟩ := Option.bind_eq_some_iff.mp hresult
  obtain ⟨⟨name, calls⟩, hfixed, hresult⟩ := Option.bind_eq_some_iff.mp hresult
  obtain ⟨l, test, body, hstmt, -, hcalls, -⟩ := fixedLength?_eq_some hfixed
  rw [hstmt] at hresult
  cases calls with
  | nil => cases hresult
  | cons first rest =>
    cases hresult
    obtain ⟨-, hold⟩ := Block.mem_of_focus? hfocus
    simp only [Focus.block, Block.nodes_append, Block.nodes, List.mem_append, hstmt] at hold
    have hfirst : first ∈ test.subterms ∧ first.lengthOf? = some name := by
      have hmem : first ∈ test.subterms.filter fun e => e.lengthOf? == some name :=
        hcalls ▸ List.mem_cons_self ..
      simpa using hmem
    have htest : ∀ node ∈ test.nodes, node ∈ t.nodes := fun node hnode =>
      hold node (.inr (.inl (.tail _ (List.mem_append_left _ hnode))))
    have hbody : ∀ node ∈ Block.nodes body, node ∈ t.nodes := fun node hnode =>
      hold node (.inr (.inl (.tail _ (List.mem_append_right _ hnode))))
    have hfirstNodes : ∀ node ∈ first.nodes, node ∈ t.nodes := fun node hnode => by
      obtain ⟨e, he, rfl⟩ := List.mem_map.mp hnode
      exact htest _ (List.mem_map_of_mem (Expr.mem_subterms_trans hfirst.1 he))
    have hname : IsIdentifier name := by
      obtain ⟨l₁, l₂, l₃, rfl⟩ := Expr.lengthOf?_eq_some hfirst.2
      exact h.nodes (.expr (.name l₃ name))
        (hfirstNodes _ (List.mem_map_of_mem (by simp [Expr.subterms, Expr.subtermsAll])))
    have hfresh := isIdentifier_freshName hname (Block.identifiers t.body)
    generalize freshName (Block.identifiers t.body) ("n_" ++ name) = fresh at hfresh
    -- The one new label of a target comes after those of the names in the condition.
    let targets := fun l => l = t.next + (first :: rest).length
    have hnext : t.next ≤ t.next + (first :: rest).length + 2 := by
      rw [Nat.add_assoc]
      exact Nat.le_add_right _ _
    refine h.refocus targets hnext fun node hnode => ?_
    simp only [Block.nodes_append, Block.nodes, Stmt.nodes, List.mem_append, List.mem_cons] at hnode
    rcases hnode with hnode | (rfl | hnode | hnode) | (rfl | hnode | hnode) | hnode
    · exact h.admissible hnext (hold node (.inl hnode))
    · exact ⟨rfl, Nat.lt_succ_self _, fun target htarget => Option.some.inj htarget ▸
        .inr ⟨Nat.le_add_right _ _, rfl⟩⟩
    · cases List.mem_singleton.mp hnode
      exact ⟨hfresh, .inr ⟨Nat.le_add_right _ _, Nat.lt_succ_of_lt (Nat.lt_succ_self _),
        fun _ => rfl⟩⟩
    · exact h.admissible hnext (hfirstNodes node hnode)
    · have hloop := hold (.stmt (.whileLoop l test body)) (.inr (.inl (List.mem_cons_self ..)))
      refine ⟨trivial, Nat.lt_of_lt_of_le (h.below _ hloop) hnext, fun target htarget => ?_⟩
      cases htarget
    · exact foldl_substitute_admissible hfresh (first :: rest) 0 test (Nat.le_add_right _ 2)
        (fun node hnode => h.admissible hnext (htest node hnode)) node hnode
    · exact h.admissible hnext (hbody node hnode)
    · exact h.admissible hnext (hold node (.inr (.inr hnode)))

/-- What a rule makes of a tree that can be written down can be written down. -/
theorem Rule.result?_isWritable (rule : Rule) (h : t.IsWritable)
    (hresult : rule.result? t label = some t') : t'.IsWritable := by
  cases rule with
  | deadBranch => exact removeDeadBranch?_isWritable h hresult
  | unreachableCode => exact removeRest?_isWritable h hresult
  | constantFold => exact fold?_isWritable h hresult
  | augmentedAssign => exact augment?_isWritable h hresult
  | accumulationToSum => exact accumulationToSum?_isWritable h hresult
  | appendToComprehension => exact appendToComprehension?_isWritable h hresult
  | hoistLength => exact hoistLength?_isWritable h hresult

end ProgramBreeding

import ProgramBreeding.Proofs.Rule.Writable
import ProgramBreeding.Proofs.Tree.WellFormed

/-!
# Rules keep trees well formed

A rule puts some of the nodes of a block into other places, under new nodes.  None of them is put into
two places, and none is changed.

## Main definitions

* `Tree.Preserves` — labels stay distinct and the nodes that are left say what they said.
* `Tree.refocus_preserves` — the same for the block around a statement.
* `Rule.result?_preserves` — the same for every rule.
-/

namespace ProgramBreeding

variable {t t' : Tree} {label next : Label} {fresh : List Label}

/-- An edit after which labels are still distinct and the nodes that are left say what they said. -/
structure Tree.Preserves (t t' : Tree) : Prop where
  labels : t'.HasLabels
  kept : t.KeptIn t'

/-- A node that an edit did not touch, or one that it made. -/
def Node.IsOldOrNew (t : Tree) (node : Node Label) : Prop := node ∈ t.nodes ∨ t.next ≤ node.tag

theorem Node.IsOldOrNew.exists_persists {node : Node Label} (h : node.IsOldOrNew t) (hlt : node.tag < t.next) :
    ∃ old ∈ t.nodes, old.Persists node :=
  h.elim (fun hold => ⟨node, hold, .refl node⟩) fun hnew => absurd hlt (Nat.not_lt.mpr hnew)

/-- An expression is found by its label. -/
theorem Tree.HasLabels.expr?_tag (h : t.HasLabels) {e : Expr Label} (he : .expr e ∈ t.nodes) :
    t.expr? e.tag = some e := by
  have hfound : (t.expr? e.tag).isSome = true :=
    List.findSome?_isSome_iff.mpr ⟨.expr e, he, by simp⟩
  obtain ⟨e', he'⟩ := Option.isSome_iff_exists.mp hfound
  obtain ⟨hmem, htag⟩ := expr?_eq_some he'
  have heq := List.inj_on_of_nodup_map h.nodup hmem he htag
  rw [he', Node.expr.inj heq]

section Refocus

variable {focus : Focus} {block : Block Label}

theorem Tree.HasLabels.refocus_preserves (h : t.HasLabels) (hfocus : Block.focus? label t.body = some focus)
    (hfresh : Numbered t.next next fresh)
    (hblock : ((Block.nodes block).map Node.tag).Subperm ((Block.nodes focus.block).map Node.tag ++ fresh))
    (hkept : ∀ node ∈ Block.nodes block, node.tag < t.next → ∃ old ∈ t.nodes, old.Persists node) :
    t.Preserves ({ t with next }.refocus focus block) :=
  ⟨h.refocus hfocus hfresh hblock, Tree.refocus_keptIn h hfocus hfresh.le hkept⟩

/-- A block from which nodes are left out. -/
theorem Tree.HasLabels.refocus_sublist (h : t.HasLabels) (hfocus : Block.focus? label t.body = some focus)
    (hblock : (Block.nodes block).Sublist (Block.nodes focus.block)) : t.Preserves (t.refocus focus block) := by
  have hfresh : Numbered t.next t.next [] := .nil t.next
  refine h.refocus_preserves hfocus hfresh ?_ fun node hnode _ => ?_
  · rw [List.append_nil]
    exact (hblock.map _).subperm
  · exact ⟨node, (Block.mem_of_focus? hfocus).2 node (hblock.subset hnode), .refl node⟩

end Refocus

/-! ### Branches, jumps and constants -/

/-- What a statement under a constant condition comes down to is a part of it. -/
theorem Stmt.sublist_of_survivors? {s : Stmt Label} {survivors : Block Label}
    (h : s.survivors? = some survivors) : (Block.nodes survivors).Sublist s.nodes := by
  unfold Stmt.survivors? at h
  split at h
  · cases h
    refine .cons _ ?_
    split
    · exact (List.sublist_append_right ..).trans (List.sublist_append_left ..)
    · exact List.sublist_append_right ..
  · split at h
    · cases h
    · cases h
      exact List.nil_sublist _
  · cases h

theorem removeDeadBranch?_preserves (h : t.HasLabels) (hresult : t.removeDeadBranch? label = some t') :
    t.Preserves t' := by
  obtain ⟨focus, hfocus, hresult⟩ := Option.bind_eq_some_iff.mp hresult
  obtain ⟨survivors, hsurvivors, hresult⟩ := Option.bind_eq_some_iff.mp hresult
  cases hresult
  refine h.refocus_sublist hfocus ?_
  simp only [Focus.block, Block.nodes_append, Block.nodes, List.append_assoc]
  exact ((Stmt.sublist_of_survivors? hsurvivors).append_right _).append_left _

theorem removeRest?_preserves (h : t.HasLabels) (hresult : t.removeRest? label = some t') : t.Preserves t' := by
  obtain ⟨focus, hfocus, hresult⟩ := Option.bind_eq_some_iff.mp hresult
  split at hresult
  · cases hresult
  · cases hresult
    refine h.refocus_sublist hfocus ?_
    simp only [Focus.block, Block.nodes_append, Block.nodes, List.append_nil]
    exact (List.sublist_append_left _ _).append_left _

theorem fold?_preserves (h : t.HasLabels) (hresult : t.fold? label = some t') : t.Preserves t' := by
  obtain ⟨e, he, hresult⟩ := Option.bind_eq_some_iff.mp hresult
  obtain ⟨value, -, hresult⟩ := Option.bind_eq_some_iff.mp hresult
  cases hresult
  obtain ⟨hmem, rfl⟩ := expr?_eq_some he
  have hfresh : Numbered t.next (t.next + 1) (Expr.constant t.next (.int value)).labels := (Numbered.nil _).cons
  exact ⟨h.substituteExpr hmem hfresh, Tree.substituteExpr_keptIn hfresh⟩

/-- Lists are parts of one another as their labels occur in them. -/
theorem subperm_of_count_le {labels labels' : List Label} (h : ∀ l, labels.count l ≤ labels'.count l) :
    labels.Subperm labels' :=
  List.subperm_ext_iff.mpr fun l _ => h l

theorem augment?_preserves (h : t.HasLabels) (hresult : t.augment? label = some t') : t.Preserves t' := by
  obtain ⟨focus, hfocus, hresult⟩ := Option.bind_eq_some_iff.mp hresult
  obtain ⟨⟨target, op, value⟩, hassignment, hresult⟩ := Option.bind_eq_some_iff.mp hresult
  cases hresult
  obtain ⟨-, hold⟩ := Block.mem_of_focus? hfocus
  obtain ⟨_, _, _, _, _, _, _, hs, -⟩ := Stmt.selfAssignment?_eq_some hassignment
  refine h.refocus_preserves hfocus (Numbered.nil _).cons (subperm_of_count_le fun l => ?_)
    fun node hnode hlt => Node.IsOldOrNew.exists_persists ?_ hlt
  · simp only [Focus.block, hs, Block.nodes_append, Block.nodes, Stmt.nodes, Node.tag, Stmt.tag,
      List.map_append, List.map_cons, Expr.map_tag_nodes, Expr.labels, Expr.subterms, List.count_append,
      List.count_cons, List.count_nil]
    omega
  · simp only [Focus.block, hs, Block.nodes_append, Block.nodes, Stmt.nodes, List.mem_append,
      List.mem_cons] at hold hnode
    rcases hnode with hnode | (rfl | hnode | hnode) | hnode
    · exact .inl (hold node (.inl hnode))
    · exact .inr (Nat.le_refl _)
    · exact .inl (hold node (.inr (.inl (.inr (.inl hnode)))))
    · refine .inl (hold node (.inr (.inl (.inr (.inr ?_)))))
      obtain ⟨e, he, rfl⟩ := List.mem_map.mp hnode
      exact List.mem_map_of_mem (by simp [Expr.subterms, he])
    · exact .inl (hold node (.inr (.inr hnode)))

/-! ### Loops -/

/-- An expression made of parts of a simple loop and of new nodes. -/
structure SimpleLoop.Makes (t : Tree) (loop : SimpleLoop) (next : Label) (fresh : List Label)
    (value : Expr Label) : Prop where
  numbered : Numbered t.next next fresh
  labels : value.labels.Subperm (loop.source.labels ++ (Expr.subtermsCond loop.cond).map Expr.tag ++
    loop.inner.labels ++ fresh)
  nodes : ∀ node ∈ value.nodes, node.IsOldOrNew t

/-- The parts of a simple loop have labels of their own. -/
theorem SimpleLoop.Matches.count_le {loop : SimpleLoop} (hloop : loop.Matches t label) (l : Label) :
    (loop.source.labels ++ (Expr.subtermsCond loop.cond).map Expr.tag ++ loop.inner.labels).count l ≤
      loop.focus.stmt.labels.count l := by
  obtain ⟨l', s, hstmt, hguarded⟩ := hloop.stmt
  rw [hstmt]
  rcases Stmt.guarded?_eq_some hguarded with ⟨rfl, hcond⟩ | ⟨l'', test, rfl, hcond⟩ <;>
    simp only [hcond, Stmt.labels, Block.nodes, Stmt.nodes, Expr.map_tag_nodes, Expr.labels, Expr.subtermsCond,
      List.map_append, List.map_cons, List.map_nil, List.count_append, List.count_cons, List.count_nil] <;>
    omega

/-- The assignment of what a simple loop computes keeps labels distinct. -/
theorem Tree.HasLabels.replaceLoop_preserves (h : t.HasLabels) {loop : SimpleLoop}
    (hloop : loop.Matches t label) {value : Expr Label} (hvalue : loop.Makes t next fresh value) :
    t.Preserves (t.replaceLoop loop value next) := by
  obtain ⟨l₀, hbefore⟩ := hloop.before
  obtain ⟨l₁, hassignment⟩ := hloop.mem_assignment
  refine h.refocus_preserves hloop.focus hvalue.numbered.cons (subperm_of_count_le fun l => ?_)
    fun node hnode hlt => Node.IsOldOrNew.exists_persists ?_ hlt
  · have hparts := hloop.count_le l
    have hmade := hvalue.labels.count_le l
    simp only [Focus.block, hbefore, Block.nodes_append, Block.nodes, Stmt.nodes, Stmt.labels, Node.tag,
      Stmt.tag, List.map_append, List.map_cons, List.map_nil, Expr.map_tag_nodes, List.count_append,
      List.count_cons, List.count_nil] at hparts hmade ⊢
    omega
  · simp only [Block.nodes_append, Block.nodes, Stmt.nodes, List.mem_append, List.mem_cons] at hnode
    rcases hnode with hnode | (rfl | hnode | hnode) | hnode
    · exact .inl (hloop.mem_before hnode)
    · exact .inr hvalue.numbered.le
    · exact .inl (hassignment node (.tail _ (List.mem_append_left _ hnode)))
    · exact hvalue.nodes node hnode
    · exact .inl (hloop.mem_after hnode)

/-- What a simple loop computes, as a comprehension. -/
theorem SimpleLoop.Matches.makes_comprehension {loop : SimpleLoop} (hloop : loop.Matches t label)
    (kind : ComprehensionKind) {element : Expr Label}
    (helement : ∀ l, element.labels.count l ≤ loop.inner.labels.count l)
    (hnodes : ∀ node ∈ element.nodes, node ∈ loop.inner.nodes) :
    loop.Makes t (t.next + 1) [t.next]
      (.comprehension t.next kind element loop.var loop.source loop.cond) where
  numbered := (Numbered.nil _).cons
  labels := subperm_of_count_le fun l => by
    have := helement l
    simp only [Expr.labels, Expr.subterms, Expr.tag, List.map_append, List.map_cons, List.count_append,
      List.count_cons, List.count_nil] at this ⊢
    omega
  nodes node hnode := by
    obtain ⟨e, he, rfl⟩ := List.mem_map.mp hnode
    simp only [Expr.subterms, List.mem_cons, List.mem_append] at he
    rcases he with rfl | (he | he) | he
    · exact .inr (Nat.le_refl _)
    · exact .inl (hloop.mem_inner (hnodes _ (List.mem_map_of_mem he)))
    · exact .inl (hloop.mem_source (List.mem_map_of_mem he))
    · cases hcond : loop.cond with
      | none => rw [hcond] at he; cases he
      | some test =>
        rw [hcond] at he
        exact .inl (hloop.mem_cond hcond (List.mem_map_of_mem he))

theorem appendToComprehension?_preserves (h : t.HasLabels)
    (hresult : t.appendToComprehension? label = some t') : t.Preserves t' := by
  obtain ⟨⟨loop, element⟩, happend, hresult⟩ := Option.bind_eq_some_iff.mp hresult
  cases hresult
  obtain ⟨hloop, -, ⟨l, l', l'', receiver, hinner, -⟩, -⟩ := appendLoop?_eq_some happend
  refine h.replaceLoop_preserves hloop (hloop.makes_comprehension .list (fun l => ?_) fun node hnode => ?_)
  · simp only [hinner, Stmt.labels, Stmt.nodes, Expr.map_tag_nodes, Expr.labels, Expr.subterms,
      Expr.subtermsAll, List.append_nil, List.map_append, List.map_cons, List.count_append, List.count_cons]
    omega
  · obtain ⟨e, he, rfl⟩ := List.mem_map.mp hnode
    rw [hinner]
    exact .tail _ (List.mem_map_of_mem (by simp [Expr.subterms, Expr.subtermsAll, he]))

/-- A new expression around one that a simple loop makes. -/
theorem SimpleLoop.Makes.around {loop : SimpleLoop} {argument value : Expr Label} {next' : Label}
    {more : List Label} (h : loop.Makes t next fresh argument) (hmore : Numbered next next' more)
    (hlabels : ∀ l, value.labels.count l ≤ argument.labels.count l + more.count l)
    (hnodes : ∀ node ∈ value.nodes, node ∈ argument.nodes ∨ node.tag ∈ more) :
    loop.Makes t next' (fresh ++ more) value where
  numbered := h.numbered.append hmore
  labels := subperm_of_count_le fun l => by
    have hmade := h.labels.count_le l
    have hvalue := hlabels l
    simp only [List.count_append] at hmade ⊢
    omega
  nodes node hnode := (hnodes node hnode).elim (h.nodes node) fun hmem =>
    .inr (Nat.le_trans h.numbered.le (hmore.range _ hmem).1)

theorem accumulationToSum?_preserves (h : t.HasLabels) (hresult : t.accumulationToSum? label = some t') :
    t.Preserves t' := by
  obtain ⟨⟨loop, start, element⟩, haccumulation, hresult⟩ := Option.bind_eq_some_iff.mp hresult
  obtain ⟨hloop, -, ⟨l, target, hinner, -⟩, -⟩ := accumulation?_eq_some haccumulation
  dsimp only at hresult
  generalize hp : (if loop.cond.isNone && element.isName loop.var then (loop.source, t.next)
    else (.comprehension t.next .generator element loop.var loop.source loop.cond,
      t.next + 1)) = p at hresult
  obtain ⟨fresh, hargument⟩ : ∃ fresh, loop.Makes t p.2 fresh p.1 := by
    rw [← hp]
    split
    · exact ⟨[], .nil _, subperm_of_count_le fun l => by simp only [List.count_append]; omega,
        fun node hnode => .inl (hloop.mem_source hnode)⟩
    · refine ⟨[t.next], hloop.makes_comprehension .generator (fun l => ?_) fun node hnode => ?_⟩
      · simp only [hinner, Stmt.labels, Stmt.nodes, List.map_cons, List.map_append, Expr.map_tag_nodes,
          List.count_append, List.count_cons]
        omega
      · rw [hinner]
        exact .tail _ (List.mem_append_right _ hnode)
  split at hresult
  · cases hresult
    refine h.replaceLoop_preserves hloop
      (hargument.around (Numbered.nil p.2).cons.cons (fun l => ?_) fun node hnode => ?_)
    · simp only [Expr.labels, Expr.subterms, Expr.subtermsAll, Expr.tag, List.append_nil, List.map_append,
        List.map_cons, List.map_nil, List.count_append, List.count_cons, List.count_nil]
      omega
    · simp only [Expr.nodes, Expr.subterms, Expr.subtermsAll, List.append_nil, List.map_append, List.map_cons,
        List.map_nil, List.mem_append, List.mem_cons, List.not_mem_nil, or_false] at hnode
      rcases hnode with rfl | rfl | hnode
      · exact .inr (by simp [Node.tag, Expr.tag])
      · exact .inr (by simp [Node.tag, Expr.tag])
      · exact .inl hnode
  · cases hresult
    refine h.replaceLoop_preserves hloop
      (hargument.around (Numbered.nil p.2).cons.cons.cons.cons (fun l => ?_) fun node hnode => ?_)
    · simp only [Expr.labels, Expr.subterms, Expr.subtermsAll, Expr.tag, List.append_nil, List.map_append,
        List.map_cons, List.map_nil, List.count_append, List.count_cons, List.count_nil, Nat.add_assoc,
        Nat.reduceAdd]
      omega
    · simp only [Expr.nodes, Expr.subterms, Expr.subtermsAll, List.append_nil, List.map_append, List.map_cons,
        List.map_nil, List.mem_append, List.mem_cons, List.not_mem_nil, or_false] at hnode
      rcases hnode with rfl | rfl | rfl | rfl | hnode
      · exact .inr (by simp [Node.tag, Expr.tag])
      · exact .inr (by simp [Node.tag, Expr.tag])
      · exact .inr (by simp [Node.tag, Expr.tag])
      · exact .inr (by simp [Node.tag, Expr.tag])
      · exact .inl hnode

/-! ### Lengths -/

theorem Numbered.range' (first count : Nat) : Numbered first (first + count) (List.range' first count) where
  le := Nat.le_add_right ..
  nodup := List.nodup_range'
  range l hl := by
    rw [List.mem_range'_1] at hl
    exact hl

/-- Replacing a part of an expression brings in no labels but those of what is put in. -/
theorem Expr.labels_substitute {e : Expr Label} (label : Label) (new : Expr Label) (h : e.labels.Nodup) :
    (Expr.substitute label new e).labels.Subperm (e.labels ++ new.labels) := by
  by_cases hmem : ∃ old ∈ e.subterms, old.tag = label
  · obtain ⟨old, hold, rfl⟩ := hmem
    have hself : Expr.substitute old.tag old e = e :=
      Expr.substitute_self fun part hpart htag => List.inj_on_of_nodup_map h hpart hold htag
    have hsubperm := (Expr.splices_substitute old.tag e).subperm old new
      (by rw [hself]; exact h) old.labels_ne_nil
    rwa [hself] at hsubperm
  · have hself : Expr.substitute label new e = e :=
      Expr.substitute_self fun part hpart htag => absurd ⟨part, hpart, htag⟩ hmem
    rw [hself]
    exact (List.sublist_append_left ..).subperm

/-- A part that is replaced takes its labels with it. -/
theorem Expr.labels_substitute_perm {e old : Expr Label} (new : Expr Label) (h : e.labels.Nodup)
    (hold : old ∈ e.subterms) (hnew : old.tag ∉ new.labels) :
    ((Expr.substitute old.tag new e).labels ++ old.labels).Perm (e.labels ++ new.labels) := by
  have hself : Expr.substitute old.tag old e = e :=
    Expr.substitute_self fun part hpart htag => List.inj_on_of_nodup_map h hpart hold htag
  have hgone : old.tag ∉ (Expr.substitute old.tag new e).labels := by
    intro hmem
    obtain ⟨part, hpart, htag⟩ := List.mem_map.mp hmem
    rcases Expr.mem_substitute hpart with hpart | ⟨part', -, hne, rfl⟩
    · exact hnew (htag ▸ List.mem_map_of_mem hpart)
    · exact hne (by rw [← htag, Expr.tag_substituteBelow])
  have hmem : old.tag ∈ e.labels := List.mem_map_of_mem hold
  have hperm := (Expr.splices_substitute old.tag e).perm old new
    (by rw [hself]; exact h) (List.mem_map_of_mem old.self_mem_subterms) (by rw [hself]; exact hmem) hgone
  rwa [hself] at hperm

section Fold

variable (next : Label) (name : String)

/-- Putting new names in the place of some expressions, one after the other. -/
def renameCalls (calls : List (Expr Label × Nat)) (test : Expr Label) : Expr Label :=
  calls.foldl (fun test (call, i) => Expr.substitute call.tag (.name (next + i) name) test) test

theorem renameCalls_labels : ∀ (calls : List (Expr Label)) (i : Nat) (test : Expr Label), test.labels.Nodup →
    (∀ l ∈ test.labels, l < next + i) →
      (renameCalls next name (calls.zipIdx i) test).labels.Subperm
        (test.labels ++ List.range' (next + i) calls.length)
  | [], i, test, _, _ => by simp [renameCalls, List.Subperm.refl]
  | call :: calls, i, test, hnodup, hlt => by
    have hstep := Expr.labels_substitute call.tag (.name (next + i) name) hnodup
    have hlabels : ∀ l ∈ (Expr.substitute call.tag (.name (next + i) name) test).labels, l < next + (i + 1) := by
      intro l hl
      rcases List.mem_append.mp (hstep.subset hl) with hl | hl
      · exact Nat.lt_succ_of_lt (hlt l hl)
      · rw [List.mem_singleton.mp hl]
        exact Nat.lt_succ_self _
    have hfresh : (test.labels ++ [next + i]).Nodup :=
      List.nodup_append.mpr ⟨hnodup, List.nodup_singleton _, fun l hl l' hl' heq =>
        Nat.lt_irrefl _ (List.mem_singleton.mp hl' ▸ heq ▸ hlt l hl)⟩
    obtain ⟨labels, hperm, hsublist⟩ := hstep
    refine (renameCalls_labels calls (i + 1) _ (hperm.nodup_iff.mp (hsublist.nodup hfresh)) hlabels).trans ?_
    rw [List.length_cons, List.range'_succ, ← List.singleton_append, ← List.append_assoc]
    exact (List.subperm_append_right _).mpr ⟨labels, hperm, hsublist⟩

/-- The first call takes its labels along. -/
theorem renameCalls_labels_cons {test first : Expr Label} (hnodup : test.labels.Nodup)
    (hlt : ∀ l ∈ test.labels, l < next) (hfirst : first ∈ test.subterms) (rest : List (Expr Label)) (l : Label) :
    (renameCalls next name (first :: rest).zipIdx test).labels.count l + first.labels.count l ≤
      test.labels.count l + (List.range' next (rest.length + 1)).count l := by
  set test' := Expr.substitute first.tag (.name (next + 0) name) test with htest'
  have hperm := Expr.labels_substitute_perm (.name (next + 0) name) hnodup hfirst fun hmem =>
    Nat.ne_of_lt (hlt _ (List.mem_map_of_mem hfirst)) (List.mem_singleton.mp hmem)
  rw [← htest'] at hperm
  have hnodup' : (test'.labels ++ first.labels).Nodup := by
    refine hperm.nodup_iff.mpr (List.nodup_append.mpr ⟨hnodup, List.nodup_singleton _, fun l hl l' hl' heq => ?_⟩)
    exact Nat.lt_irrefl _ (List.mem_singleton.mp hl' ▸ heq ▸ hlt l hl)
  have hlt' : ∀ l ∈ test'.labels, l < next + 1 := fun l hl => by
    rcases List.mem_append.mp (hperm.subset (List.mem_append_left _ hl)) with hl | hl
    · exact Nat.lt_succ_of_lt (hlt l hl)
    · rw [List.mem_singleton.mp hl]
      exact Nat.lt_succ_self _
  have hrest := (renameCalls_labels next name rest 1 test' (List.nodup_append.mp hnodup').1 hlt').count_le l
  have hcount := hperm.count_eq l
  rw [List.range'_succ, List.count_cons]
  simp only [Expr.labels, Expr.subterms, List.map_cons, List.map_nil, List.count_append, List.count_cons,
    List.count_nil, Expr.tag, Nat.add_zero] at hrest hcount ⊢
  show ((renameCalls next name (rest.zipIdx 1) test').subterms.map Expr.tag).count l + _ ≤ _
  omega

theorem renameCalls_persists : ∀ (calls : List (Expr Label × Nat)) (test : Expr Label),
    ∀ node ∈ (renameCalls next name calls test).nodes, node.tag < next → ∃ old ∈ test.nodes, old.Persists node
  | [], _, node, hnode, _ => ⟨node, hnode, .refl node⟩
  | (call, i) :: calls, test, node, hnode, hlt => by
    obtain ⟨old, hold, hpersists⟩ := renameCalls_persists calls _ node hnode hlt
    obtain ⟨e, he, rfl⟩ := List.mem_map.mp hold
    rcases Expr.mem_substitute he with he | ⟨e', he', -, rfl⟩
    · rw [List.mem_singleton.mp he] at hpersists
      exact absurd hlt (Nat.not_lt.mpr (hpersists.tag ▸ Nat.le_add_right next i))
    · exact ⟨.expr e', List.mem_map_of_mem he', (Expr.persists_substituteBelow e').trans hpersists⟩

end Fold

/-- The statements of a block have labels of their own. -/
theorem Tree.HasLabels.nodup_focus (h : t.HasLabels) {focus : Focus}
    (hfocus : Block.focus? label t.body = some focus) : ((Block.nodes focus.block).map Node.tag).Nodup := by
  obtain ⟨path, hbody, -, -⟩ := Block.exists_path h.nodup hfocus
  have hnodup := h.nodup
  rw [show t.nodes = Block.nodes (path.fill focus.block) from congrArg Block.nodes hbody] at hnodup
  exact (List.nodup_append.mp ((path.tags_fill focus.block).nodup_iff.mp hnodup)).2.1

theorem hoistLength?_preserves (h : t.HasLabels) (hresult : t.hoistLength? label = some t') : t.Preserves t' := by
  obtain ⟨focus, hfocus, hresult⟩ := Option.bind_eq_some_iff.mp hresult
  obtain ⟨⟨name, calls⟩, hfixed, hresult⟩ := Option.bind_eq_some_iff.mp hresult
  obtain ⟨l, test, body, hstmt, -, hcalls, -⟩ := fixedLength?_eq_some hfixed
  rw [hstmt] at hresult
  cases calls with
  | nil => cases hresult
  | cons first rest =>
    cases hresult
    obtain ⟨-, hold⟩ := Block.mem_of_focus? hfocus
    have hfirst : first ∈ test.subterms := by
      have hmem : first ∈ test.subterms.filter fun e => e.lengthOf? == some name :=
        hcalls ▸ List.mem_cons_self ..
      exact (List.mem_filter.mp hmem).1
    have hnodup := h.nodup_focus hfocus
    simp only [Focus.block, Block.nodes_append, Block.nodes, hstmt, Stmt.nodes, List.map_append, List.map_cons,
      Expr.map_tag_nodes, List.append_assoc, List.cons_append] at hnodup
    replace hnodup : test.labels.Nodup :=
      (List.nodup_append.mp (List.nodup_cons.mp (List.nodup_append.mp hnodup).2.1).2).1
    simp only [Focus.block, Block.nodes_append, Block.nodes, List.mem_append, hstmt] at hold
    have htest : ∀ node ∈ test.nodes, node ∈ t.nodes := fun node hnode =>
      hold node (.inr (.inl (.tail _ (List.mem_append_left _ hnode))))
    have hlt : ∀ l ∈ test.labels, l < t.next := fun l hl => by
      rw [← Expr.map_tag_nodes] at hl
      obtain ⟨node, hnode, rfl⟩ := List.mem_map.mp hl
      exact h.inside _ (.tail _ (List.mem_map_of_mem (htest node hnode)))
    generalize freshName (Block.identifiers t.body) ("n_" ++ name) = fresh
    -- The first call leaves the condition and takes its labels along to where the length is taken.
    have hlabels := renameCalls_labels_cons t.next fresh hnodup hlt hfirst rest
    have hpersists := renameCalls_persists t.next fresh (first :: rest).zipIdx test
    refine h.refocus_preserves hfocus
      ((Numbered.range' t.next (rest.length + 1)).append (Numbered.nil _).cons.cons)
      (subperm_of_count_le fun l' => ?_) fun node hnode hlt => ?_
    · have hlabels := hlabels l'
      have hname : ∀ l, (Expr.name l fresh).labels = [l] := fun _ => rfl
      change ((Block.nodes (focus.before ++ Stmt.assign _ (.name _ fresh) first :: Stmt.whileLoop l
        (renameCalls t.next fresh (first :: rest).zipIdx test) body :: focus.after)).map Node.tag).count l' ≤
          ((Block.nodes (focus.before ++ focus.stmt :: focus.after)).map Node.tag ++ _).count l'
      simp only [hstmt, Block.nodes_append, Block.nodes, Stmt.nodes, Node.tag, Stmt.tag, Expr.map_tag_nodes, hname,
        List.map_append, List.map_cons, List.count_append, List.count_cons, List.count_nil,
        List.length_cons] at hlabels ⊢
      omega
    · change node ∈ Block.nodes (focus.before ++ Stmt.assign _ (.name _ fresh) first :: Stmt.whileLoop l
        (renameCalls t.next fresh (first :: rest).zipIdx test) body :: focus.after) at hnode
      simp only [Block.nodes_append, Block.nodes, Stmt.nodes, List.mem_append, List.mem_cons] at hnode hold
      rcases hnode with hnode | ⟨rfl | hnode | hnode⟩ | ⟨rfl | hnode | hnode⟩ | hnode
      · exact ⟨node, hold _ (.inl hnode), .refl node⟩
      · exact absurd hlt (Nat.not_lt.mpr (Nat.le_trans (Nat.le_add_right ..) (Nat.le_add_right ..)))
      · rw [List.mem_singleton.mp hnode] at hlt
        exact absurd hlt (Nat.not_lt.mpr (Nat.le_add_right ..))
      · obtain ⟨e, he, rfl⟩ := List.mem_map.mp hnode
        exact ⟨_, htest _ (List.mem_map_of_mem (Expr.mem_subterms_trans hfirst he)), .refl _⟩
      · exact ⟨.stmt (.whileLoop l test body), hold _ (.inr (.inl (.inl rfl))), rfl, rfl, rfl, id⟩
      · obtain ⟨old, hmem, hold⟩ := hpersists node hnode hlt
        exact ⟨old, htest old hmem, hold⟩
      · exact ⟨node, hold _ (.inr (.inl (.inr (.inr hnode)))), .refl node⟩
      · exact ⟨node, hold _ (.inr (.inr hnode)), .refl node⟩

/-- A rule keeps labels distinct and changes nothing about the nodes that it leaves in the tree. -/
theorem Rule.result?_preserves {rule : Rule} (h : t.HasLabels) (hresult : rule.result? t label = some t') :
    t.Preserves t' := by
  cases rule with
  | deadBranch => exact removeDeadBranch?_preserves h hresult
  | unreachableCode => exact removeRest?_preserves h hresult
  | constantFold => exact fold?_preserves h hresult
  | augmentedAssign => exact augment?_preserves h hresult
  | accumulationToSum => exact accumulationToSum?_preserves h hresult
  | appendToComprehension => exact appendToComprehension?_preserves h hresult
  | hoistLength => exact hoistLength?_preserves h hresult

end ProgramBreeding

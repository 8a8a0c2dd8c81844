import ProgramBreeding.Proofs.Rule.WellFormed
import ProgramBreeding.Proofs.Tree.Focus

/-!
# Rules step by step

A rule that edits a tree in several steps looks for the node of each step in the tree that the steps before
have left.  No step takes away the node of a later one, so all of them are found, and what the steps leave is
what the rule makes of the tree at once.

## Main definitions

* `Tree.swap?`, `Tree.splice?` — an expression replaced, some statements replaced, if they are found.
* `Rule.inSteps?` — the rules by such edits, one after the other.
* `Tree.HasLabels.mem_substituteExpr` — expressions apart from one that is replaced stay.
* `Tree.HasLabels.swapCalls?_eq` — calls apart from one another are all found and replaced.
* `Rule.inSteps?_eq` — the steps leave what the rule makes.
-/

namespace ProgramBreeding

/-! ### Edits that look for their nodes -/

namespace Tree

/-- The statement with a label. -/
def stmt? (t : Tree) (label : Label) : Option (Stmt Label) := (Block.focus? label t.body).map Focus.stmt

/-- The tree with an expression replaced, if there is one with the label. -/
def swap? (t : Tree) (label : Label) (new : Expr Label) : Option Tree :=
  (t.expr? label).map fun _ => { t with body := Block.substituteExpr label new t.body }

/-- The tree with some statements replaced, from the one with the label on, if there is one. -/
def splice? (t : Tree) (label : Label) (count : Nat) (block : Block Label) : Option Tree :=
  (Block.focus? label t.body).map fun focus =>
    t.refocus focus (focus.before ++ block ++ (focus.stmt :: focus.after).drop count)

/-- Expressions replaced by new uses of a variable, one after the other. -/
def swapCalls? (name : String) (calls : List (Expr Label)) (t : Tree) : Option Tree :=
  calls.foldlM (fun t call => { t with next := t.next + 1 }.swap? call.tag (.name t.next name)) t

/-- A loop and the assignment before it replaced by an assignment, from the assignment before it on. -/
def spliceLoop? (t : Tree) (loop : SimpleLoop) (value : Expr Label) (next : Label) : Option Tree := do
  let init ← loop.focus.before.getLast?
  { t with next := next + 1 }.splice? init.tag 2 [.assign next loop.target value]

/-- A fixed length taken before a loop: each call that takes it is replaced, and then the loop is as it has
become. -/
def hoistLengthInSteps? (t : Tree) (label : Label) : Option Tree := do
  let (name, calls) ← t.fixedLength? (← t.stmt? label)
  let first ← calls.head?
  let fresh := freshName (Block.identifiers t.body) ("n_" ++ name)
  let t ← t.swapCalls? fresh calls
  let loop ← t.stmt? label
  { t with next := t.next + 2 }.splice? label 1 [.assign (t.next + 1) (.name t.next fresh) first, loop]

end Tree

/-- The sum that a loop adds up, with the labels from the first free one on. -/
def SimpleLoop.total (loop : SimpleLoop) (start : Int64) (element : Expr Label) (next : Label) :
    Expr Label × Label :=
  let (argument, next) :=
    if loop.cond.isNone && element.isName loop.var then (loop.source, next)
    else (.comprehension next .generator element loop.var loop.source loop.cond, next + 1)
  let total := .call (next + 1) (.name next "sum") [argument]
  if start = 0 then (total, next + 2)
  else (.binary (next + 3) .add (.constant (next + 2) (.int start)) total, next + 4)

/-- The tree that a rule makes at a node by edits that look for their nodes one after the other. -/
def Rule.inSteps? (rule : Rule) (t : Tree) (label : Label) : Option Tree :=
  match rule with
  | .deadBranch => do
    t.splice? label 1 (← (← t.stmt? label).survivors?)
  | .unreachableCode => do
    let first ← (t.siblingsAfter label).head?
    t.splice? first.tag (t.siblingsAfter label).length []
  | .constantFold => do
    let value ← (← t.expr? label).folded?
    { t with next := t.next + 1 }.swap? label (.constant t.next (.int value))
  | .augmentedAssign => do
    let (target, op, value) ← (← t.stmt? label).selfAssignment?
    { t with next := t.next + 1 }.splice? label 1 [.augAssign t.next target op value]
  | .accumulationToSum => do
    let (loop, start, element) ← t.accumulation? label
    let (value, next) := loop.total start element t.next
    t.spliceLoop? loop value next
  | .appendToComprehension => do
    let (loop, element) ← t.appendLoop? label
    t.spliceLoop? loop (.comprehension t.next .list element loop.var loop.source loop.cond) (t.next + 1)
  | .hoistLength => t.hoistLengthInSteps? label

variable {t : Tree} {label next : Label}

/-! ### One block -/

section

variable {focus : Focus} {before after : Block Label} {s : Stmt Label}

/-- The block around a statement replaced from another one of its statements. -/
theorem Tree.HasLabels.splice?_sibling (h : t.HasLabels) (hfocus : Block.focus? label t.body = some focus)
    (hblock : focus.block = before ++ s :: after) (next : Label) (count : Nat) (block : Block Label) :
    { t with next }.splice? s.tag count block =
      some ({ t with next }.refocus focus (before ++ block ++ (s :: after).drop count)) := by
  have hfound : Block.focus? s.tag { t with next }.body = some ⟨before, s, after, focus.required⟩ :=
    h.focus?_sibling hfocus hblock
  have hreplace := h.replaceAround_sibling hfocus hblock
  simp only [Tree.splice?, hfound, Option.map_some, Tree.refocus, hreplace]

theorem Tree.splice?_eq (hfocus : Block.focus? label t.body = some focus) (next : Label) (block : Block Label) :
    { t with next }.splice? label 1 block =
      some ({ t with next }.refocus focus (focus.before ++ block ++ focus.after)) := by
  have hfound : Block.focus? label { t with next }.body = some focus := hfocus
  rw [Tree.splice?, hfound]
  rfl

/-- A simple loop is replaced from the assignment before it on. -/
theorem Tree.HasLabels.spliceLoop?_eq (h : t.HasLabels) {loop : SimpleLoop} (hloop : loop.Matches t label)
    (value : Expr Label) (next : Label) : t.spliceLoop? loop value next = some (t.replaceLoop loop value next) := by
  obtain ⟨l, hbefore⟩ := hloop.before
  have hblock : loop.focus.block =
      loop.before ++ .assign l loop.target loop.init :: loop.focus.stmt :: loop.focus.after := by
    rw [Focus.block, hbefore, List.append_assoc]
    rfl
  have hsplice := h.splice?_sibling hloop.focus hblock (next + 1) 2 [.assign next loop.target value]
  rw [Tree.spliceLoop?, hbefore, List.getLast?_concat]
  rw [List.append_assoc] at hsplice
  exact hsplice

end

/-! ### Calls replaced one after the other -/

/-- Parts of a tree that have no node in common. -/
def Expr.Apart (a b : Expr Label) : Prop := a.tag ∉ b.labels ∧ b.tag ∉ a.labels

/-- What is apart from an expression is still there when it is replaced. -/
theorem Tree.HasLabels.mem_substituteExpr (h : t.HasLabels) {old e new : Expr Label} (hold : .expr old ∈ t.nodes)
    (he : .expr e ∈ t.nodes) (hapart : old.Apart e) (hnew : e.tag ∉ new.labels) :
    .expr e ∈ Block.nodes (Block.substituteExpr old.tag new t.body) := by
  obtain ⟨place, hbody, hplace⟩ := h.exists_exprPlace hold
  have hmem : e.tag ∈ place.labels := by
    have htag : e.tag ∈ (Block.nodes t.body).map Node.tag := List.mem_map_of_mem (f := Node.tag) he
    rw [hbody] at htag
    exact (List.mem_append.mp ((place.labels_fill old).subset htag)).resolve_right hapart.2
  have hfill : Block.substituteExpr old.tag new t.body = place.fill new := by
    rw [hbody, ExprPlace.substituteExpr_fill_tag hplace]
  have htag : e.tag ∈ (Block.nodes (Block.substituteExpr old.tag new t.body)).map Node.tag := by
    rw [hfill]
    exact (place.labels_fill new).symm.subset (List.mem_append_left _ hmem)
  obtain ⟨node, hnode, htag⟩ := List.mem_map.mp htag
  rcases Block.mem_mapExprs hnode with ⟨s, hs, rfl⟩ | ⟨outer, houter, hpart⟩
  · have hsame : (Node.stmt s).tag = (Node.expr e).tag := (s.persists_mapExprs _).tag.symm.trans htag
    cases List.inj_on_of_nodup_map h.nodup hs he hsame
  · obtain ⟨e', he', rfl⟩ := List.mem_map.mp hpart
    rcases Expr.mem_substitute he' with he' | ⟨part, hpart', -, rfl⟩
    · exact absurd (htag ▸ List.mem_map_of_mem he') hnew
    · have hsame : (Node.expr part).tag = (Node.expr e).tag := (Expr.tag_substituteBelow part).symm.trans htag
      cases List.inj_on_of_nodup_map h.nodup (houter _ (List.mem_map_of_mem hpart')) he hsame
      have hself : Expr.substitute old.tag new e = e := Expr.substitute_of_notMem hapart.1
      have hne : e.tag ≠ old.tag := fun heq => hapart.1 (heq ▸ List.mem_map_of_mem e.self_mem_subterms)
      rw [Expr.substitute_eq, if_neg hne] at hself
      rwa [hself] at hnode

/-- A program with calls replaced by uses of a variable. -/
def Block.renameCalls (next : Label) (name : String) (calls : List (Expr Label × Nat)) (body : Block Label) :
    Block Label :=
  calls.foldl (fun body (call, i) => Block.substituteExpr call.tag (.name (next + i) name) body) body

/-- By induction on the calls: each of them is found in the tree that the ones before have left. -/
theorem Tree.HasLabels.swapCalls?_eq (name : String) (next : Label) : ∀ (calls : List (Expr Label)) (i : Nat)
    {t : Tree}, t.HasLabels → t.next = next + i → (∀ call ∈ calls, .expr call ∈ t.nodes) → calls.Pairwise Expr.Apart →
      let t' : Tree := { t with
        next := next + i + calls.length
        body := Block.renameCalls next name (calls.zipIdx i) t.body }
      t.swapCalls? name calls = some t' ∧ t'.HasLabels
  | [], i, t, h, hnext, _, _ => by
    have ht : { t with next := next + i, body := t.body } = t := by rw [← hnext]
    exact ⟨congrArg some ht.symm, ht ▸ h⟩
  | call :: calls, i, t, h, hnext, hcalls, hapart => by
    obtain ⟨hcall, hcalls⟩ := List.forall_mem_cons.mp hcalls
    obtain ⟨hfirst, hapart⟩ := List.pairwise_cons.mp hapart
    have hfresh : Numbered t.next (t.next + 1) (Expr.name t.next name).labels := (Numbered.nil _).cons
    have hlabels := h.substituteExpr hcall hfresh
    have hkept : ∀ other ∈ calls,
        .expr other ∈ Block.nodes (Block.substituteExpr call.tag (.name t.next name) t.body) := fun other hother => by
      refine h.mem_substituteExpr hcall (hcalls other hother) (hfirst other hother) fun hmem => ?_
      have hlt := h.inside _ (List.mem_cons_of_mem _ (List.mem_map_of_mem (hcalls other hother)))
      exact Nat.ne_of_lt hlt (List.mem_singleton.mp hmem)
    obtain ⟨hrest, hlabels'⟩ := swapCalls?_eq name next calls (i + 1) hlabels (congrArg (· + 1) hnext) hkept hapart
    have hfound : Tree.expr? { t with next := t.next + 1 } call.tag = some call := h.expr?_tag hcall
    have hnext' : next + (i + 1) + calls.length = next + i + (call :: calls).length := by
      rw [List.length_cons, ← Nat.add_assoc next, Nat.add_right_comm _ 1, Nat.add_assoc _ calls.length]
    rw [hnext', hnext] at hrest hlabels'
    refine ⟨?_, hlabels'⟩
    rw [Tree.swapCalls?, List.foldlM_cons, Tree.swap?, hfound, hnext]
    exact hrest

/-- A call that takes a length has no part that takes one but itself. -/
theorem Expr.notMem_labels_of_lengthOf? {test a b : Expr Label} {name : String} (hnodup : test.labels.Nodup)
    (ha : a ∈ test.subterms ∧ a.lengthOf? = some name) (hb : b ∈ test.subterms ∧ b.lengthOf? = some name)
    (hne : a.tag ≠ b.tag) : a.tag ∉ b.labels := by
  intro hmem
  obtain ⟨part, hpart, htag⟩ := List.mem_map.mp hmem
  cases List.inj_on_of_nodup_map hnodup (Expr.mem_subterms_trans hb.1 hpart) ha.1 htag
  obtain ⟨l₁, l₂, l₃, rfl⟩ := Expr.lengthOf?_eq_some hb.2
  simp only [Expr.subterms, Expr.subtermsAll, List.cons_append, List.nil_append, List.append_nil, List.mem_cons,
    List.not_mem_nil, or_false] at hpart
  rcases hpart with rfl | rfl | rfl
  · exact hne rfl
  · exact absurd ha.2 (by simp [Expr.lengthOf?])
  · exact absurd ha.2 (by simp [Expr.lengthOf?])

/-- The calls that take a length in a condition are apart from one another. -/
theorem Expr.pairwise_apart_calls {test : Expr Label} (hnodup : test.labels.Nodup) (name : String) :
    (test.subterms.filter fun e => e.lengthOf? == some name).Pairwise Expr.Apart := by
  have htags : test.subterms.Pairwise fun a b => a.tag ≠ b.tag := List.pairwise_map.mp hnodup
  refine (htags.filter _).imp_of_mem fun {a b} ha hb hne => ?_
  rw [List.mem_filter, beq_iff_eq] at ha hb
  exact ⟨notMem_labels_of_lengthOf? hnodup ha hb hne, notMem_labels_of_lengthOf? hnodup hb ha hne.symm⟩

/-- By induction on the calls: replacing parts of an expression leaves what is around it. -/
theorem ExprPlace.renameCalls_fill (next : Label) (name : String) {place : ExprPlace} :
    ∀ (calls : List (Expr Label × Nat)) (test : Expr Label), (∀ call ∈ calls, call.1.tag ∉ place.labels) →
      Block.renameCalls next name calls (place.fill test) =
        place.fill (ProgramBreeding.renameCalls next name calls test)
  | [], _, _ => rfl
  | (call, i) :: calls, test, h => by
    have hfirst := place.substituteExpr_fill (h _ (List.mem_cons_self ..)) (.name (next + i) name) test
    have hrest := renameCalls_fill next name calls (Expr.substitute call.tag (.name (next + i) name) test)
      fun other hother => h other (List.mem_cons_of_mem _ hother)
    rw [← hfirst] at hrest
    exact hrest

/-- Replacing the block around a statement depends on the path to the block only. -/
theorem Tree.refocus_eq {t t' : Tree} {focus focus' : Focus} {block : Block Label} (hne : block ≠ [])
    (hlineage : t'.lineage = t.lineage) (hroot : t'.root = t.root) (hnext : t'.next = t.next)
    (hbody : Block.replaceAround focus'.stmt.tag block t'.body = Block.replaceAround focus.stmt.tag block t.body) :
    t'.refocus focus' block = t.refocus focus block := by
  have hempty : block.isEmpty = false := List.isEmpty_eq_false_iff.mpr hne
  simp only [Tree.refocus, hempty, Bool.false_and, Bool.false_eq_true, if_false, hlineage, hroot, hnext, hbody]

/-- An expression of a tree has labels of its own, which the tree has given away. -/
theorem Tree.HasLabels.labels_fill (h : t.HasLabels) {place : ExprPlace} {e : Expr Label}
    (hbody : t.body = place.fill e) : e.labels.Nodup ∧ ∀ l ∈ e.labels, l < t.next := by
  have hperm := place.labels_fill e
  rw [← hbody] at hperm
  refine ⟨(List.nodup_append.mp (hperm.nodup h.nodup)).2.1, fun l hl => h.inside l (.tail _ ?_)⟩
  exact hperm.symm.subset (List.mem_append_right _ hl)

/-- The calls that take a length in an expression are all found and replaced, wherever it stands. -/
theorem Tree.HasLabels.swapCalls?_fill (h : t.HasLabels) (place : ExprPlace) {test : Expr Label}
    (hbody : t.body = place.fill test) (hparts : ∀ part ∈ test.subterms, .expr part ∈ t.nodes)
    {calls : List (Expr Label)} {name : String}
    (hcalls : calls = test.subterms.filter fun e => e.lengthOf? == some name) (fresh : String) :
    let t' : Tree := { t with
      next := t.next + calls.length
      body := place.fill (ProgramBreeding.renameCalls t.next fresh calls.zipIdx test) }
    t.swapCalls? fresh calls = some t' ∧ t'.HasLabels := by
  have hnodup : ((Block.nodes (place.fill test)).map Node.tag).Nodup := hbody ▸ h.nodup
  have hsub : ∀ call ∈ calls, call ∈ test.subterms := fun call hcall => (List.mem_filter.mp (hcalls ▸ hcall)).1
  have hapart : calls.Pairwise Expr.Apart := hcalls ▸ Expr.pairwise_apart_calls (h.labels_fill hbody).1 name
  have hswaps := Tree.HasLabels.swapCalls?_eq fresh t.next calls 0 h rfl
    (fun call hcall => hparts call (hsub call hcall)) hapart
  have hfill := place.renameCalls_fill t.next fresh calls.zipIdx test fun call hcall =>
    place.notMem_labels hnodup (hsub _ (List.fst_mem_of_mem_zipIdx hcall))
  rwa [hbody, hfill] at hswaps

/-- The loop is found again after the calls in its condition are replaced, in the block that it was in. -/
theorem Tree.HasLabels.hoistLengthInSteps?_eq (h : t.HasLabels) :
    t.hoistLengthInSteps? label = t.hoistLength? label := by
  unfold Tree.hoistLengthInSteps? Tree.hoistLength? Tree.stmt?
  cases hfocus : Block.focus? label t.body with
  | none => rfl
  | some focus =>
    obtain ⟨before, s, after, required⟩ := focus
    simp only [Option.map_some, Option.bind_eq_bind, Option.bind_some]
    cases hfixed : t.fixedLength? s with
    | none => rfl
    | some fixed =>
      obtain ⟨name, calls⟩ := fixed
      obtain ⟨l, test, body, rfl, -, hcalls, -⟩ := fixedLength?_eq_some hfixed
      obtain ⟨rfl, hnodes⟩ := Block.mem_of_focus? hfocus
      obtain ⟨path, hbody, -, hreplace⟩ := Block.exists_path h.nodup hfocus
      cases calls with
      | nil => rfl
      | cons first rest =>
        simp only [List.head?_cons, Option.bind_some]
        generalize freshName (Block.identifiers t.body) ("n_" ++ name) = fresh
        let block : StmtPlace := ⟨path, before, after⟩
        let place : ExprPlace := ⟨block, .whileTest l body, []⟩
        have hparts : ∀ part ∈ test.subterms, .expr part ∈ t.nodes := fun part hpart =>
          hnodes _ (Block.mem_nodes_of_mem (List.mem_append_right before (List.mem_cons_self ..))
            (.tail _ (List.mem_append_left _ (List.mem_map_of_mem hpart))))
        obtain ⟨hswaps, hlabels⟩ := h.swapCalls?_fill place hbody hparts hcalls fresh
        set test' := ProgramBreeding.renameCalls t.next fresh (first :: rest).zipIdx test
        let swapped : Tree := { t with next := t.next + (first :: rest).length, body := place.fill test' }
        let loop : Stmt Label := .whileLoop l test' body
        have hnodup : ((Block.nodes (block.fill loop)).map Node.tag).Nodup := hlabels.nodup
        have hfound : Block.focus? l swapped.body = some ⟨before, loop, after, path.requiredOr false⟩ :=
          StmtPlace.focus?_fill hnodup
        have hsplice := Tree.splice?_eq (t := swapped) hfound (swapped.next + 2)
          [.assign (swapped.next + 1) (.name swapped.next fresh) first, loop]
        rw [List.append_assoc] at hsplice
        simp only [hswaps, Option.bind_some]
        change (Option.map Focus.stmt (Block.focus? l swapped.body)).bind _ = _
        rw [hfound]
        refine hsplice.trans (congrArg some (Tree.refocus_eq (by simp) rfl rfl rfl ?_))
        -- Either tree has the same path to the block.
        have hholds : Block.holds l (before ++ loop :: after) = true := by simp [Block.holds, loop, Stmt.tag]
        exact (Block.replaceAround_fill hholds (block.tag_notMem_path hnodup)).trans (hreplace _).symm

theorem Tree.accumulationToSum?_eq : t.accumulationToSum? label = do
    let (loop, start, element) ← t.accumulation? label
    let (value, next) := loop.total start element t.next
    return t.replaceLoop loop value next := by
  unfold Tree.accumulationToSum?
  refine congrArg _ (funext fun found => ?_)
  obtain ⟨loop, start, element⟩ := found
  dsimp only [SimpleLoop.total]
  split <;> rfl

/-- The steps of a rule find what they look for where the rule matches, and leave what the rule makes. -/
theorem Rule.inSteps?_eq (h : t.HasLabels) (rule : Rule) (label : Label) :
    rule.inSteps? t label = rule.result? t label := by
  cases rule with
  | deadBranch =>
    unfold Rule.inSteps? Rule.result? Tree.removeDeadBranch? Tree.stmt?
    cases hfocus : Block.focus? label t.body with
    | none => rfl
    | some focus =>
      simp only [Option.map_some, Option.bind_eq_bind, Option.bind_some]
      cases focus.stmt.survivors? with
      | none => rfl
      | some survivors => exact Tree.splice?_eq hfocus t.next survivors
  | unreachableCode =>
    unfold Rule.inSteps? Rule.result? Tree.removeRest? Tree.siblingsAfter
    cases hfocus : Block.focus? label t.body with
    | none => rfl
    | some focus =>
      obtain ⟨before, s, after, required⟩ := focus
      cases after with
      | nil => rfl
      | cons first rest =>
        have hblock : Focus.block ⟨before, s, first :: rest, required⟩ = (before ++ [s]) ++ first :: rest :=
          (List.append_assoc before [s] (first :: rest)).symm
        have hsplice := h.splice?_sibling hfocus hblock t.next (first :: rest).length []
        rw [List.drop_length, List.append_nil, List.append_nil] at hsplice
        exact hsplice
  | constantFold =>
    unfold Rule.inSteps? Rule.result? Tree.fold?
    cases he : t.expr? label with
    | none => rfl
    | some e =>
      simp only [Option.bind_eq_bind, Option.bind_some]
      cases e.folded? with
      | none => rfl
      | some value =>
        have hfound : Tree.expr? { t with next := t.next + 1 } label = some e := he
        simp only [Option.bind_some, Tree.swap?, hfound]
        rfl
  | augmentedAssign =>
    unfold Rule.inSteps? Rule.result? Tree.augment? Tree.stmt?
    cases hfocus : Block.focus? label t.body with
    | none => rfl
    | some focus =>
      simp only [Option.map_some, Option.bind_eq_bind, Option.bind_some]
      cases focus.stmt.selfAssignment? with
      | none => rfl
      | some found =>
        obtain ⟨target, op, value⟩ := found
        have hsplice := Tree.splice?_eq hfocus (t.next + 1) [.augAssign t.next target op value]
        rw [List.append_assoc] at hsplice
        exact hsplice
  | accumulationToSum =>
    rw [Rule.result?, Tree.accumulationToSum?_eq, Rule.inSteps?]
    cases haccumulation : t.accumulation? label with
    | none => rfl
    | some found =>
      obtain ⟨loop, start, element⟩ := found
      exact h.spliceLoop?_eq (accumulation?_eq_some haccumulation).1 _ _
  | appendToComprehension =>
    unfold Rule.inSteps? Rule.result? Tree.appendToComprehension?
    cases happend : t.appendLoop? label with
    | none => rfl
    | some found =>
      obtain ⟨loop, element⟩ := found
      exact h.spliceLoop?_eq (appendLoop?_eq_some happend).1 _ _
  | hoistLength => exact h.hoistLengthInSteps?_eq

end ProgramBreeding

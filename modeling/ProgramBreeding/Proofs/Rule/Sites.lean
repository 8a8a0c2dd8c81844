import ProgramBreeding.Proofs.Rule.Steps
import ProgramBreeding.Proofs.Tree.Sites

/-!
# Where rules match and where they can be applied

A rule can be applied at the nodes where it matches.  All rules but one look again whether they match, and
refuse the nodes where they do not.  The rule for unreachable statements only looks whether there are
statements to remove, so it can also be applied at statements that are not jumps.

## Main definitions

* `Rule.isSome_result?_iff` — where the other six rules can be applied.
* `Tree.isSome_removeRest?`, `Tree.HasLabels.mem_jumpsWithRest` — where the one can be, and where it matches.
* `Rule.isSome_result?_of_mem_sites` — every rule can be applied where it matches.
* `Rule.exists_apply_eq_ok` — a rule does not fail where it matches.
* `Rule.apply_eq_unmatched_iff` — where a rule is refused.
* `Rule.not_apply_unmatched` — a rule applied where it does not match.
-/

namespace ProgramBreeding

variable {t : Tree} {label : Label}

/-! ### Parts that are always evaluated -/

mutual

/-- By induction on the expression: what is always evaluated is a part of it. -/
theorem Expr.mem_subterms_of_alwaysEvaluated {α : Type} {part : Expr α} : ∀ {e : Expr α},
    part ∈ e.alwaysEvaluated → part ∈ e.subterms
  | .name .., h | .constant .., h => h
  | .list .., h => by
    rcases List.mem_cons.mp h with rfl | h
    · exact Expr.self_mem_subterms _
    · exact .tail _ (Expr.mem_subtermsAll_of_alwaysEvaluated h)
  | .comprehension .., h => by
    rcases List.mem_cons.mp h with rfl | h
    · exact Expr.self_mem_subterms _
    · simp [Expr.subterms, Expr.mem_subterms_of_alwaysEvaluated h]
  | .unary .., h | .attribute .., h => by
    rcases List.mem_cons.mp h with rfl | h
    · exact Expr.self_mem_subterms _
    · exact .tail _ (Expr.mem_subterms_of_alwaysEvaluated h)
  | .logic .., h => by
    rcases List.mem_cons.mp h with rfl | h
    · exact Expr.self_mem_subterms _
    · simp [Expr.subterms, Expr.mem_subterms_of_alwaysEvaluated h]
  | .binary .., h | .compare .., h | .subscript .., h => by
    simp only [Expr.alwaysEvaluated, List.mem_cons, List.mem_append] at h
    rcases h with rfl | h | h
    · exact Expr.self_mem_subterms _
    · simp [Expr.subterms, Expr.mem_subterms_of_alwaysEvaluated h]
    · simp [Expr.subterms, Expr.mem_subterms_of_alwaysEvaluated h]
  | .call .., h => by
    simp only [Expr.alwaysEvaluated, List.mem_cons, List.mem_append] at h
    rcases h with rfl | h | h
    · exact Expr.self_mem_subterms _
    · simp [Expr.subterms, Expr.mem_subterms_of_alwaysEvaluated h]
    · simp [Expr.subterms, Expr.mem_subtermsAll_of_alwaysEvaluated h]

theorem Expr.mem_subtermsAll_of_alwaysEvaluated {α : Type} {part : Expr α} : ∀ {es : List (Expr α)},
    part ∈ Expr.alwaysEvaluatedAll es → part ∈ Expr.subtermsAll es
  | [], h => h
  | e :: rest, h => by
    rcases List.mem_append.mp h with h | h
    · exact List.mem_append_left _ (Expr.mem_subterms_of_alwaysEvaluated h)
    · exact List.mem_append_right _ (Expr.mem_subtermsAll_of_alwaysEvaluated h)

end

/-! ### Statements that are found -/

/-- The statement that is found by a label is the one that has it. -/
theorem Tree.HasLabels.exists_focus_iff (h : t.HasLabels) {p : Stmt Label → Prop} :
    (∃ focus, Block.focus? label t.body = some focus ∧ p focus.stmt) ↔
      ∃ s, .stmt s ∈ t.nodes ∧ p s ∧ s.tag = label := by
  constructor
  · rintro ⟨focus, hfocus, hp⟩
    obtain ⟨htag, hnodes⟩ := Block.mem_of_focus? hfocus
    have hmem : focus.stmt ∈ focus.block := by simp [Focus.block]
    exact ⟨focus.stmt, hnodes _ (Block.mem_nodes_of_mem hmem focus.stmt.self_mem_nodes), hp, htag⟩
  · rintro ⟨s, hs, hp, rfl⟩
    obtain ⟨focus, hfocus, rfl⟩ := h.exists_focus hs
    exact ⟨focus, hfocus, hp⟩

/-- The statements with a property, and what is found by their labels. -/
theorem Tree.HasLabels.mem_stmtsWhere_iff (h : t.HasLabels) {p : Stmt Label → Bool} :
    label ∈ t.stmtsWhere p ↔ ∃ focus, Block.focus? label t.body = some focus ∧ p focus.stmt = true := by
  rw [Tree.mem_stmtsWhere]
  exact (h.exists_focus_iff (p := fun s => p s = true)).symm

/-- A loop that is found stands in the tree as one. -/
theorem SimpleLoop.Matches.mem_forLoops (h : t.HasLabels) {loop : SimpleLoop} (hloop : loop.Matches t label) :
    label ∈ t.ofCategory .forLoop := by
  obtain ⟨l, s, hstmt, -⟩ := hloop.stmt
  obtain ⟨s', hs', hcategory, rfl⟩ := (h.exists_focus_iff (p := fun s => s.category = .forLoop)).mp
    ⟨loop.focus, hloop.focus, by rw [hstmt]; rfl⟩
  rw [Tree.ofCategory, if_neg (by decide)]
  exact List.mem_map.mpr ⟨.stmt s', List.mem_filter.mpr ⟨hs', decide_eq_true hcategory⟩, rfl⟩

/-! ### Where rules can be applied -/

/-- A length is fixed only if a call takes it. -/
theorem calls_ne_nil_of_fixedLength? {s : Stmt Label} {name : String} {calls : List (Expr Label)}
    (h : t.fixedLength? s = some (name, calls)) : calls ≠ [] := by
  obtain ⟨l, test, body, rfl, ⟨call, hcall, hname⟩, rfl, -⟩ := fixedLength?_eq_some h
  refine List.ne_nil_of_mem (List.mem_filter.mpr ⟨Expr.mem_subterms_of_alwaysEvaluated hcall, ?_⟩)
  rw [hname, beq_self_eq_true]

namespace Rule

/-- A rule that makes something of what it finds in a statement can be applied where there is such a thing. -/
theorem isSome_bind_find (h : t.HasLabels) {α : Type} (find? : Stmt Label → Option α) {make : Focus → α → Option Tree}
    (hmake : ∀ focus found, find? focus.stmt = some found → (make focus found).isSome = true) :
    ((Block.focus? label t.body).bind fun focus => (find? focus.stmt).bind (make focus)).isSome = true ↔
      label ∈ t.stmtsWhere fun s => (find? s).isSome := by
  rw [h.mem_stmtsWhere_iff]
  cases Block.focus? label t.body with
  | none => simp
  | some focus =>
    cases hfound : find? focus.stmt with
    | none => simp [hfound]
    | some found => simp [hfound, hmake focus found hfound]

theorem isSome_removeDeadBranch? (h : t.HasLabels) :
    (t.removeDeadBranch? label).isSome = true ↔ label ∈ t.deadBranches :=
  isSome_bind_find h Stmt.survivors? fun _ _ _ => rfl

theorem isSome_augment? (h : t.HasLabels) : (t.augment? label).isSome = true ↔ label ∈ t.selfAssignments :=
  isSome_bind_find h Stmt.selfAssignment? fun _ _ _ => rfl

theorem isSome_hoistLength? (h : t.HasLabels) : (t.hoistLength? label).isSome = true ↔ label ∈ t.lengthLoops := by
  refine isSome_bind_find h t.fixedLength? fun focus found hfixed => ?_
  obtain ⟨name, calls⟩ := found
  obtain ⟨l, test, body, hstmt, -⟩ := fixedLength?_eq_some hfixed
  cases calls with
  | nil => exact absurd rfl (calls_ne_nil_of_fixedLength? hfixed)
  | cons first rest => simp [hstmt]

theorem isSome_fold? (h : t.HasLabels) : (t.fold? label).isSome = true ↔ label ∈ t.foldable := by
  rw [Tree.foldable, Tree.mem_exprsWhere, Tree.fold?]
  constructor
  · intro hsome
    cases he : t.expr? label with
    | none => simp [he] at hsome
    | some e =>
      obtain ⟨hmem, rfl⟩ := expr?_eq_some he
      cases hvalue : e.folded? with
      | none => simp [he, hvalue] at hsome
      | some value => exact ⟨e, hmem, by rw [hvalue]; rfl, rfl⟩
  · rintro ⟨e, he, hfolded, rfl⟩
    obtain ⟨value, hvalue⟩ := Option.isSome_iff_exists.mp hfolded
    simp [h.expr?_tag he, hvalue]

/-- The loops where something is found that only simple loops have. -/
theorem mem_simpleLoops (h : t.HasLabels) {α : Type} {find? : Label → Option α}
    (hfind : ∀ found, find? label = some found → ∃ loop : SimpleLoop, loop.Matches t label) :
    label ∈ (t.ofCategory .forLoop).filter (fun label => (find? label).isSome) ↔ (find? label).isSome = true := by
  rw [List.mem_filter, and_iff_right_iff_imp]
  intro hsome
  obtain ⟨found, hfound⟩ := Option.isSome_iff_exists.mp hsome
  obtain ⟨loop, hloop⟩ := hfind found hfound
  exact hloop.mem_forLoops h

theorem isSome_accumulationToSum? (h : t.HasLabels) :
    (t.accumulationToSum? label).isSome = true ↔ label ∈ t.accumulations := by
  rw [Tree.accumulations, mem_simpleLoops h fun found hfound => ⟨found.1, (accumulation?_eq_some hfound).1⟩,
    Tree.accumulationToSum?_eq]
  cases t.accumulation? label <;> simp

theorem isSome_appendToComprehension? (h : t.HasLabels) :
    (t.appendToComprehension? label).isSome = true ↔ label ∈ t.appendLoops := by
  rw [Tree.appendLoops, mem_simpleLoops h fun found hfound => ⟨found.1, (appendLoop?_eq_some hfound).1⟩,
    Tree.appendToComprehension?]
  cases t.appendLoop? label <;> simp

end Rule

/-! ### Statements that are not reached -/

/-- The statements after any statement can be removed, if there are any. -/
theorem Tree.isSome_removeRest? : (t.removeRest? label).isSome = true ↔ t.siblingsAfter label ≠ [] := by
  rw [Tree.removeRest?, Tree.siblingsAfter]
  cases Block.focus? label t.body with
  | none => simp
  | some focus => cases hafter : focus.after <;> simp [hafter]

/-- The rule for unreachable statements matches at the jumps that have statements after them. -/
theorem Tree.HasLabels.mem_jumpsWithRest (h : t.HasLabels) : label ∈ t.jumpsWithRest ↔
    t.siblingsAfter label ≠ [] ∧ ∃ s, t.stmt? label = some s ∧ s.isJump = true := by
  rw [Tree.jumpsWithRest, h.mem_stmtsWhere_iff, Tree.stmt?]
  cases hfocus : Block.focus? label t.body with
  | none => simp
  | some focus =>
    obtain ⟨htag, -⟩ := Block.mem_of_focus? hfocus
    simp [htag, and_comm]

namespace Rule

/-- All rules but one can be applied exactly where they match. -/
theorem isSome_result?_iff (h : t.HasLabels) {rule : Rule} (hne : rule ≠ .unreachableCode) :
    (rule.result? t label).isSome = true ↔ label ∈ rule.sites t := by
  cases rule with
  | deadBranch => exact isSome_removeDeadBranch? h
  | unreachableCode => exact absurd rfl hne
  | constantFold => exact isSome_fold? h
  | augmentedAssign => exact isSome_augment? h
  | accumulationToSum => exact isSome_accumulationToSum? h
  | appendToComprehension => exact isSome_appendToComprehension? h
  | hoistLength => exact isSome_hoistLength? h

theorem apply_eq_error_iff {rule : Rule} :
    rule.apply t label = .error (.unmatched (t.handle label)) ↔ rule.result? t label = none := by
  unfold Rule.apply
  cases rule.result? t label <;> simp

/-- Every rule can be applied where it matches. -/
theorem isSome_result?_of_mem_sites (h : t.HasLabels) {rule : Rule} (hsite : label ∈ rule.sites t) :
    (rule.result? t label).isSome = true := by
  by_cases hrule : rule = .unreachableCode
  · subst hrule
    exact Tree.isSome_removeRest?.mpr (h.mem_jumpsWithRest.mp hsite).1
  · exact (isSome_result?_iff h hrule).mpr hsite

/-- A rule never fails where it matches: neither at once nor at any of its steps. -/
theorem exists_apply_eq_ok (h : t.HasLabels) {rule : Rule} (hsite : label ∈ rule.sites t) :
    ∃ t', rule.apply t label = .ok t' ∧ rule.inSteps? t label = some t' := by
  obtain ⟨t', ht'⟩ := Option.isSome_iff_exists.mp (isSome_result?_of_mem_sites h hsite)
  exact ⟨t', by rw [Rule.apply, ht'], (inSteps?_eq h rule label).trans ht'⟩

/-- A rule is refused exactly where it does not match, except that the rule for unreachable statements is also
applied at statements that are not jumps, if there are statements after them. -/
theorem apply_eq_unmatched_iff (h : t.WellFormed) (rule : Rule) (label : Label) :
    rule.apply t label = .error (.unmatched (t.handle label)) ↔
      label ∉ rule.sites t ∧ (rule = .unreachableCode → t.siblingsAfter label = []) := by
  rw [apply_eq_error_iff]
  by_cases hrule : rule = .unreachableCode
  · subst hrule
    have hrefused : Rule.unreachableCode.result? t label = none ↔ t.siblingsAfter label = [] := by
      rw [← not_iff_not, ← Ne, Option.ne_none_iff_isSome]
      exact Tree.isSome_removeRest?
    rw [hrefused]
    refine ⟨fun hrest => ⟨fun hsite => ?_, fun _ => hrest⟩, fun hrest => hrest.2 rfl⟩
    exact (h.hasLabels.mem_jumpsWithRest.mp hsite).1 hrest
  · rw [← isSome_result?_iff h.hasLabels hrule, Option.not_isSome_iff_eq_none]
    exact ⟨fun hnone => ⟨hnone, fun heq => absurd heq hrule⟩, fun hnone => hnone.1⟩

/-- A loop that has no end. -/
def endlessLoop : Tree := .ofBlock 0 [.whileLoop () (.constant () (.bool true)) [.pass ()], .pass ()]

theorem apply_eq_unmatched_iff_endlessLoop : endlessLoop.WellFormed ∧ (endlessLoop.stmt? 2).isSome = true ∧
    Rule.deadBranch.apply endlessLoop 2 = .error (.unmatched (endlessLoop.handle 2)) := by
  have hwellFormed : endlessLoop.WellFormed := Tree.ofBlock_wellFormed (by decide)
  have hsite : 2 ∉ Rule.deadBranch.sites endlessLoop := by decide
  have hrefused := (apply_eq_unmatched_iff hwellFormed .deadBranch 2).mpr
    ⟨hsite, fun heq => absurd heq (by decide)⟩
  exact ⟨hwellFormed, by decide, hrefused⟩

/-- Two statements that are both run. -/
def twoAssignments : Tree := .ofBlock 0
  [.assign () (.name () "x") (.constant () (.int 1)), .assign () (.name () "y") (.constant () (.int 2))]

/-- The rule for unreachable statements removes the second of them at the first one, where it does not match. -/
theorem not_apply_unmatched : ¬ ∀ (t : Tree) (rule : Rule) (label : Label), t.WellFormed →
    label ∈ t.nodes.map Node.tag → label ∉ rule.sites t → ∃ e, rule.apply t label = .error e := by
  intro hrefused
  have hwellFormed : twoAssignments.WellFormed := Tree.ofBlock_wellFormed (by decide)
  have hsite : 2 ∉ Rule.unreachableCode.sites twoAssignments := by decide
  obtain ⟨e, he⟩ := hrefused twoAssignments .unreachableCode 2 hwellFormed (by decide) hsite
  have happlied : (Rule.unreachableCode.apply twoAssignments 2).toOption.isSome = true := by decide
  rw [he] at happlied
  cases happlied

end Rule

end ProgramBreeding

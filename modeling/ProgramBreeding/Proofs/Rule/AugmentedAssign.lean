import ProgramBreeding.Proofs.Rule.Behaviour
import ProgramBreeding.Proofs.Rule.Writable
import ProgramBreeding.Proofs.Tree.Sites

/-!
# Augmented assignments

An assignment of a variable to itself and a number spends one unit of fuel and then does what the
shorter assignment does, whatever the variable holds: only a list that is added to a list is changed in
place, and a number is no list.

## Main definitions

* `Stmt.exec_selfAssignment` — the longer assignment in terms of the shorter one.
* `Tree.augment_improvedBy` — programs with an assignment shortened.
-/

namespace ProgramBreeding

/-! ### Both assignments -/

/-- An assignment of a variable to itself and a number spends a unit of fuel, and then it does what the
shorter one does. -/
theorem Stmt.exec_selfAssignment {s : Stmt Label} {target value : Expr Label} {op : BinaryOp}
    (h : s.selfAssignment? = some (target, op, value)) (env : Env) (l : Label) :
    s.exec env = (do charge env.budget 1; (Stmt.augAssign l target op value).exec env) := by
  obtain ⟨_, _, k, k', _, x, literal, rfl, rfl, rfl, -, hnumber⟩ := Stmt.selfAssignment?_eq_some h
  have hne : ∀ ref, Value.ofLiteral literal ≠ .list ref := by
    rcases hnumber with ⟨i, rfl⟩ | ⟨y, rfl⟩ <;> exact nofun
  simp only [Stmt.exec, Expr.eval, bind_assoc, pure_bind, augment_eq env _ fun _ other _ _ => hne other, store]

/-- The shorter assignment saves a unit of fuel. -/
theorem Stmt.sim_selfAssignment {X : Exchange} (hX : X.IsOpen) {S : Setting} (hsuits : X.Suits S)
    {call call' : Label → List Value → Exec Value} (hcalls : CallsAlike S X.concealed call call')
    {owner : Option Label} {V : View} (hV : V.Fits X owner) {s : Stmt Label} {target value : Expr Label} {op : BinaryOp}
    (h : s.selfAssignment? = some (target, op, value)) (l : Label) (P : Pairing) (c : Nat) :
    Sim S V P c c (Flow.Agree S.labels) (Block.exec ⟨S.budget, call⟩ [s])
      (Block.exec ⟨S.budget', call'⟩ [.augAssign l target op value]) := by
  have hshort : Sim S V P c c (Flow.Agree S.labels) (Block.exec ⟨S.budget, call⟩ [.augAssign l target op value])
      (Block.exec ⟨S.budget', call'⟩ [.augAssign l target op value]) := by
    refine hX.sim hsuits hcalls hV ?_ P c
    exact nofun
  rw [Block.exec_singleton] at hshort ⊢
  rw [Stmt.exec_selfAssignment h _ l]
  exact .chargeLeft 1 (hshort.spare (Nat.le_add_right ..))

/-! ### The statement replaced -/

namespace Tree

/-- With an assignment of a variable to itself and a number shortened, a program does what it did. -/
theorem augment_improvedBy {t : Tree} (h : t.WellFormed) {label : Label}
    (hsite : label ∈ Rule.augmentedAssign.sites t) : ∃ t', Rule.augmentedAssign.apply t label = .ok t' ∧
      (Program.ofTree t).ImprovedBy (Program.ofTree t') := by
  obtain ⟨s, hs, hassignment, rfl⟩ := Tree.mem_stmtsWhere.mp hsite
  obtain ⟨⟨target, op, value⟩, hassignment⟩ := Option.isSome_iff_exists.mp hassignment
  obtain ⟨focus, hfocus, rfl⟩ := h.hasLabels.exists_focus hs
  let short : Stmt Label := .augAssign t.next target op value
  let t' := { t with next := t.next + 1 }.refocus focus (focus.before ++ short :: focus.after)
  have hresult : Rule.augmentedAssign.result? t focus.stmt.tag = some t' := by
    simp only [Rule.result?, augment?, hfocus, hassignment, Option.bind_eq_bind, Option.bind_some]
    rfl
  refine ⟨t', by rw [Rule.apply, hresult], ?_⟩
  have hmatches : (Program.ofTree t).Matches (.ofParts (Block.functionLabels t'.body) [focus.stmt] [short])
      (Program.ofTree t') := h.hasLabels.matches_refocus hfocus rfl (List.cons_ne_nil _ _) rfl rfl
  have hopen := Exchange.ofParts_isOpen (Block.functionLabels t'.body) [focus.stmt] [short]
  exact hmatches.improvedBy hopen fun S _ _ hsuits hcalls => Exchange.ofParts_holds hsuits hcalls fun hV =>
    Stmt.sim_selfAssignment hopen hsuits hcalls hV hassignment t.next

/-- A program with an assignment of a variable to itself and a number, where the variable may hold anything. -/
def selfAssignment : Tree := .ofBlock 0
  [.functionDef () "f" ["x"]
    [.assign () (.name () "x") (.binary () .sub (.name () "x") (.constant () (.int 1))),
      .ret () (some (.name () "x"))]]

theorem augment_improvedBy_selfAssignment : ∃ label t', label ∈ Rule.augmentedAssign.sites selfAssignment ∧
    Rule.augmentedAssign.apply selfAssignment label = .ok t' ∧
      (Program.ofTree selfAssignment).ImprovedBy (Program.ofTree t') := by
  have hwellFormed : selfAssignment.WellFormed := Tree.ofBlock_wellFormed (by decide)
  obtain ⟨label, hsite⟩ : ∃ label, label ∈ Rule.augmentedAssign.sites selfAssignment :=
    List.exists_mem_of_ne_nil _ (by decide)
  obtain ⟨t', hresult, himproved⟩ := augment_improvedBy hwellFormed hsite
  exact ⟨label, t', hsite, hresult, himproved⟩

end Tree

end ProgramBreeding

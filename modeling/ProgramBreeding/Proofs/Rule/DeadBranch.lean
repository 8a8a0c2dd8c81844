import ProgramBreeding.Proofs.Rule.Behaviour
import ProgramBreeding.Proofs.Rule.Derived
import ProgramBreeding.Proofs.Tree.Sites

/-!
# Dead branches

A statement under a constant condition does what it comes down to, and spends fuel on the condition
besides.

## Main definitions

* `Stmt.sim_survivors` — a statement under a constant condition beside what it comes down to.
* `Tree.removeDeadBranch_improvedBy` — programs without a dead branch.
-/

namespace ProgramBreeding

/-! ### Constant conditions -/

/-- Whether a constant counts as true depends on no list. -/
theorem truth_ofLiteral (value : Literal) : truth (.ofLiteral value) = pure value.isTruthy := by
  cases value <;> rfl

/-- A statement under a constant condition spends fuel, and then does what it comes down to. -/
theorem Stmt.exec_survivors {s : Stmt Label} {survivors : Block Label} (h : s.survivors? = some survivors)
    (env : Env) : ∃ m : Exec Flow, s.exec env = (do charge env.budget 1; charge env.budget 1; m) ∧
      (m = Block.exec env survivors ∨ m = (do charge env.budget 1; Block.exec env survivors)) := by
  unfold Stmt.survivors? at h
  split at h
  · rename_i l k value body orelse
    cases h
    refine ⟨_, ?_, .inl rfl⟩
    simp only [Stmt.exec, Expr.eval, bind_assoc, pure_bind, truth_ofLiteral]
    cases value.isTruthy <;> rfl
  · rename_i l k value body
    split at h
    · cases h
    · rename_i hfalse
      cases h
      refine ⟨_, ?_, .inr rfl⟩
      simp only [Stmt.exec, whileRounds, Expr.eval, bind_assoc, pure_bind, truth_ofLiteral, if_neg hfalse]
      rfl
  · cases h

section

variable {S : Setting} {V : View} {P : Pairing} {call call' : Label → List Value → Exec Value} {c : Nat}

/-- A statement under a constant condition beside what costs no more than its condition and does what
the statement comes down to. -/
theorem Stmt.sim_survivors {s : Stmt Label} {survivors : Block Label} (h : s.survivors? = some survivors)
    {m' : Exec Flow}
    (hm : Sim S V P (c + 2) c (Flow.Agree S.labels) (Block.exec ⟨S.budget, call⟩ survivors) m') :
    Sim S V P c c (Flow.Agree S.labels) (s.exec ⟨S.budget, call⟩) m' := by
  obtain ⟨m, hs, hsurvivors⟩ := s.exec_survivors h ⟨S.budget, call⟩
  rw [hs]
  -- One unit for the statement and one for its condition.
  refine .chargeLeft 1 (.chargeLeft 1 (Sim.spare (c := c + 2) ?_ ?_))
  · simp only [UInt64.toNat_one]
    omega
  · rcases hsurvivors with rfl | rfl
    · exact hm
    · exact .chargeLeft 1 (hm.spare (Nat.le_add_right ..))

end

/-- What may stand in the place of a statement under a constant condition: what it comes down to, or an
empty statement if that is nothing. -/
def Stmt.ComesDownTo (s : Stmt Label) (part part' : Block Label) : Prop :=
  part = [s] ∧ ∃ survivors, s.survivors? = some survivors ∧
    (part' = survivors ∨ survivors = [] ∧ ∃ l, part' = [.pass l])

theorem Stmt.functions_survivors {s : Stmt Label} {survivors : Block Label} (h : s.survivors? = some survivors) :
    (Block.functions survivors).Sublist s.functions := by
  unfold Stmt.survivors? at h
  split at h
  · cases h
    rw [Stmt.functions]
    split
    · exact List.sublist_append_left ..
    · exact List.sublist_append_right ..
  · split at h
    · cases h
    · cases h
      exact List.nil_sublist _
  · cases h

/-- The exchange of a statement under a constant condition in a program with these functions. -/
def Exchange.ofDeadBranch (functions : List Label) (s : Stmt Label) : Exchange :=
  .ofPart (.ofFunctions functions) fun part part' =>
    s.ComesDownTo part part' ∧ ∀ l ∈ Block.functionLabels part', l ∈ functions

section

variable {functions : List Label} {s : Stmt Label}

theorem Exchange.ofDeadBranch_isOpen : (Exchange.ofDeadBranch functions s).IsOpen := Exchange.ofPart_isOpen _ _

theorem Exchange.ofDeadBranch_keepsFunctions : (Exchange.ofDeadBranch functions s).KeepsFunctions where
  body := False.elim
  part := by
    rintro _ part part' ⟨⟨rfl, survivors, hsurvivors, hpart⟩, hdefined⟩
    rcases hpart with rfl | ⟨-, l, rfl⟩
    · intro entry hentry
      obtain ⟨entry', hentry', hmatch⟩ :=
        ofDeadBranch_isOpen.functionsMatch part' (fun l hl => ⟨rfl, hdefined l hl⟩) entry hentry
      refine ⟨entry', ?_, hmatch⟩
      rw [Block.functions, Block.functions, List.append_nil]
      exact (Stmt.functions_survivors hsurvivors).subset hentry'
    · exact .nil

theorem Exchange.ofDeadBranch_holds {S : Setting} {call call' : Label → List Value → Exec Value}
    (hsuits : (Exchange.ofDeadBranch functions s).Suits S) (hcalls : CallsAlike S (fun _ => False) call call') :
    (Exchange.ofDeadBranch functions s).Holds S call call' where
  suits := hsuits
  calls := hcalls
  expr := False.elim
  body := False.elim
  part := by
    rintro owner part part' V ⟨⟨rfl, survivors, hsurvivors, hpart⟩, hdefined⟩ hV P c
    rw [Block.exec_singleton]
    refine Stmt.sim_survivors hsurvivors ?_
    rcases hpart with rfl | ⟨rfl, l, rfl⟩
    -- The units that are saved are needed only where an empty statement is put in.
    · refine (ofDeadBranch_isOpen.sim hsuits hcalls hV (fun l hl => ?_) P c).spare (Nat.le_add_right ..)
      rw [← hsuits.labels]
      exact ⟨rfl, hdefined l hl⟩
    · rw [Block.exec_singleton, Stmt.exec]
      refine .chargeRight 1 ?_ (Sim.spare ?_ (.pure .next))
      · exact Nat.le_add_left 1 (c + 1)
      · exact Nat.le_add_right c 1

end

namespace Tree

/-- Without a dead branch, a program does what it did. -/
theorem removeDeadBranch_improvedBy {t : Tree} (h : t.WellFormed) {label : Label}
    (hsite : label ∈ Rule.deadBranch.sites t) : ∃ t', Rule.deadBranch.apply t label = .ok t' ∧
      (Program.ofTree t).ImprovedBy (Program.ofTree t') := by
  obtain ⟨s, hs, hdead, rfl⟩ := Tree.mem_stmtsWhere.mp hsite
  obtain ⟨survivors, hsurvivors⟩ := Option.isSome_iff_exists.mp hdead
  obtain ⟨focus, hfocus, rfl⟩ := h.hasLabels.exists_focus hs
  let t' := t.refocus focus (focus.before ++ survivors ++ focus.after)
  have hresult : Rule.deadBranch.result? t focus.stmt.tag = some t' := by
    simp only [Rule.result?, removeDeadBranch?, hfocus, hsurvivors, Option.bind_eq_bind, Option.bind_some]
    rfl
  refine ⟨t', by rw [Rule.apply, hresult], ?_⟩
  let X := Exchange.ofDeadBranch (Block.functionLabels t'.body) focus.stmt
  have hopen : X.IsOpen := Exchange.ofDeadBranch_isOpen
  have hself : ∀ l ∈ Block.functionLabels t'.body, X.labels.rel l l := fun l hl => ⟨rfl, hl⟩
  -- The path to the statement is left alone, and so is what stands beside the statement.
  have hbody : Block.Matches X none t.body t'.body := by
    refine h.hasLabels.refocus_matches hopen hfocus hself (fun owner hblock => ?_) fun owner hempty => ?_
    · simp only [Block.functionLabels, Block.functions_append, List.map_append, List.mem_append] at hblock
      rw [List.append_assoc]
      refine (hopen.block focus.before fun l hl => hblock l (.inl (.inl hl))).append ?_
      have hpart : X.part owner [focus.stmt] survivors :=
        ⟨⟨rfl, survivors, hsurvivors, .inl rfl⟩, fun l hl => (hblock l (.inl (.inr hl))).2⟩
      exact .exchanged hpart (hopen.block focus.after fun l hl => hblock l (.inr hl))
    · obtain ⟨hfirst, hafter⟩ := List.append_eq_nil_iff.mp hempty
      obtain ⟨hbefore, rfl⟩ := List.append_eq_nil_iff.mp hfirst
      have hpart : X.part owner [focus.stmt] [.pass t.next] :=
        ⟨⟨rfl, [], hsurvivors, .inr ⟨rfl, _, rfl⟩⟩, nofun⟩
      rw [Focus.block, hbefore, hafter]
      exact .exchanged hpart .nil
  have hmatches : (Program.ofTree t).Matches X (Program.ofTree t') :=
    Program.matches_ofTree hbody Exchange.ofDeadBranch_keepsFunctions h.hasLabels (fun l l' hl => hl.1 ▸ hl.2)
      (fun _ _ => id) fun _ => id
  exact hmatches.improvedBy hopen fun S _ _ => Exchange.ofDeadBranch_holds

/-- A program with a branch that is always taken. -/
def alwaysReturns : String := "def f(n):\n    while n:\n        if 1:\n            return n\n        n = 0\n    return 0\n"

theorem removeDeadBranch_improvedBy_alwaysReturns : ∃ t label t', treeOf alwaysReturns = .ok t ∧
    label ∈ Rule.deadBranch.sites t ∧ Rule.deadBranch.apply t label = .ok t' ∧
      (Program.ofTree t).ImprovedBy (Program.ofTree t') := by
  obtain ⟨t, label, ht, hderived, hsite⟩ : ∃ t label, treeOf alwaysReturns = .ok t ∧ t.Derived ∧
      label ∈ Rule.deadBranch.sites t := Rule.exists_site (by decide +kernel)
  obtain ⟨t', hresult, himproved⟩ := removeDeadBranch_improvedBy
    (hderived.hasLabels.wellFormed hderived.isWritable) hsite
  exact ⟨t, label, t', ht, hsite, hresult, himproved⟩

end Tree

end ProgramBreeding

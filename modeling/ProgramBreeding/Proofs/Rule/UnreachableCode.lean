import ProgramBreeding.Proofs.Execution.Lockstep
import ProgramBreeding.Proofs.Rule.Behaviour
import ProgramBreeding.Proofs.Tree.Sites
import ProgramBreeding.Rule.Application

/-!
# Unreachable code

What stands after a jump in its block is never run, so leaving it out cannot be observed at all: values,
errors, output and fuel are the same, and a run that ends for want of fuel ends there in either program.

## Main definitions

* `Stmt.exec_jump_bind` — a jump goes on to nothing.
* `Block.exec_jump` — what stands after it does not matter.
* `Tree.removeRest_indistinguishable` — programs without unreachable code.
-/

namespace ProgramBreeding

/-! ### Jumps -/

/-- Whatever follows a jump, the jump comes to the same: it fails or leaves the block. -/
theorem Stmt.exec_jump_bind {s : Stmt Label} (h : s.isJump = true) (env : Env) {f f' : Flow → Exec Flow}
    (hf : ∀ flow ≠ Flow.next, f flow = f' flow) : s.exec env >>= f = s.exec env >>= f' := by
  cases s with
  | ret l value => cases value <;> simp [Stmt.exec, hf]
  | brk l => simp [Stmt.exec, hf]
  | cont l => simp [Stmt.exec, hf]
  | _ => cases h

/-- What stands after a jump does not matter. -/
theorem Block.exec_jump {s : Stmt Label} (h : s.isJump = true) (env : Env) (rest : Block Label) :
    Block.exec env (s :: rest) = Block.exec env [s] := by
  rw [Block.exec, Block.exec]
  refine Stmt.exec_jump_bind h env fun flow hflow => ?_
  cases flow with
  | next => exact absurd rfl hflow
  | _ => rfl

theorem Block.functions_jump {s : Stmt Label} (h : s.isJump = true) : Block.functions [s] = [] := by
  cases s with
  | ret | brk | cont => rfl
  | _ => cases h

/-! ### The rest left out -/

section

variable {fuel : UInt64} {call call' : Label → List Value → Exec Value}

variable {functions : List Label} {s : Stmt Label} {rest : Block Label}

theorem Block.functionLabels_jump (h : s.isJump = true) {l : Label} : l ∉ Block.functionLabels [s] := by
  rw [Block.functionLabels, Block.functions_jump h]
  exact List.not_mem_nil

/-- A jump does what it does with something after it. -/
theorem Exchange.ofJump_holds {S : Setting} (h : s.isJump = true)
    (hsuits : (Exchange.ofParts functions (s :: rest) [s]).Suits S)
    (hcalls : CallsAlike S (fun _ => False) call call') :
    (Exchange.ofParts functions (s :: rest) [s]).Holds S call call' := by
  refine Exchange.ofParts_holds hsuits hcalls fun hV P c => ?_
  rw [Block.exec_jump h]
  exact (ofParts_isOpen _ _ _).sim hsuits hcalls hV (fun l hl => absurd hl (Block.functionLabels_jump h)) P c

theorem Exchange.ofJump_exact (h : s.isJump = true)
    (hholds : (Exchange.ofParts functions (s :: rest) [s]).Holds (.even (.ofFunctions functions) fuel) call call')
    (hcalls : CallsInLockstep (.ofFunctions functions) fuel (fun _ => False) call call') :
    (Exchange.ofParts functions (s :: rest) [s]).Exact (.ofFunctions functions) fuel call call' where
  holds := hholds
  calls := hcalls
  eq hl := hl.1
  expr := False.elim
  body := False.elim
  part := by
    rintro owner _ _ V ⟨rfl, rfl⟩ hV P
    rw [Block.exec_jump h]
    exact (ofParts_isOpen _ _ _).lockstep hholds hcalls (fun hl => hl.1) hV
      (fun l hl => absurd hl (Block.functionLabels_jump h)) P

end

namespace Tree

/-- Without what stands after a jump, a program cannot be told from what it was. -/
theorem removeRest_indistinguishable {t : Tree} (h : t.WellFormed) {label : Label}
    (hsite : label ∈ Rule.unreachableCode.sites t) : ∃ t', Rule.unreachableCode.apply t label = .ok t' ∧
      (Program.ofTree t).IndistinguishableFrom (Program.ofTree t') := by
  obtain ⟨s, hs, hjump, rfl⟩ := Tree.mem_stmtsWhere.mp hsite
  obtain ⟨focus, hfocus, rfl⟩ := h.hasLabels.exists_focus hs
  obtain ⟨hjump, hafter⟩ := Bool.and_eq_true_iff.mp hjump
  let t' := t.refocus focus (focus.before ++ [focus.stmt])
  have hresult : Rule.unreachableCode.result? t focus.stmt.tag = some t' := by
    simp only [siblingsAfter, hfocus, Option.map_some, Option.getD_some, Bool.not_eq_true'] at hafter
    simp only [Rule.result?, removeRest?, hfocus, Option.bind_eq_bind, Option.bind_some, hafter]
    rfl
  refine ⟨t', by rw [Rule.apply, hresult], ?_⟩
  have hblock : focus.block = focus.before ++ ((focus.stmt :: focus.after) ++ []) := by
    rw [List.append_nil]
    rfl
  have hmatches : (Program.ofTree t).Matches
      (.ofParts (Block.functionLabels t'.body) (focus.stmt :: focus.after) [focus.stmt]) (Program.ofTree t') :=
    h.hasLabels.matches_refocus hfocus hblock (List.cons_ne_nil _ _) (Block.functions_jump hjump) rfl
  exact hmatches.indistinguishable (Exchange.ofParts_isOpen _ _ _) (fun _ _ _ => Exchange.ofJump_holds hjump)
    fun _ _ _ => Exchange.ofJump_exact hjump

/-- A program with a statement after a jump out of a loop. -/
def unreachable : Tree := .ofBlock 0
  [.forLoop () "i" (.list () [.constant () (.int 1)]) [.brk (), .pass ()]]

theorem removeRest_indistinguishable_afterBreak : ∃ label t', label ∈ Rule.unreachableCode.sites unreachable ∧
    Rule.unreachableCode.apply unreachable label = .ok t' ∧
      (Program.ofTree unreachable).IndistinguishableFrom (Program.ofTree t') := by
  have hwellFormed : unreachable.WellFormed := Tree.ofBlock_wellFormed (by decide)
  obtain ⟨label, hsite⟩ : ∃ label, label ∈ Rule.unreachableCode.sites unreachable :=
    List.exists_mem_of_ne_nil _ (by decide)
  obtain ⟨t', hresult, hsame⟩ := removeRest_indistinguishable hwellFormed hsite
  exact ⟨label, t', hsite, hresult, hsame⟩

end Tree

end ProgramBreeding

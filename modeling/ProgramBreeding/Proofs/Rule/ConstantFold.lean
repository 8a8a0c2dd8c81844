import ProgramBreeding.Proofs.Rule.Behaviour
import ProgramBreeding.Proofs.Rule.Derived
import ProgramBreeding.Proofs.Tree.Sites

/-!
# Operations on constants

The value that folding finds for an operation on integer constants is the one that the operation
comes to when it is run: signs, products and remainders are exact, and so is the word they fit in.

## Main definitions

* `binaryOp_of_fold?` — what folding finds is what running finds.
* `Sim.intValue` — an integer constant costs fuel and nothing else.
* `Tree.fold_improvedBy` — programs with an operation replaced by its value.
-/

namespace ProgramBreeding

/-! ### The value of an operation -/

/-- What folding finds is what arithmetic on words finds. -/
theorem intArithmetic_of_fold? {op : BinaryOp} {a b n : Int64} (h : op.fold? a b = some n) :
    intArithmetic op a b = .ok (.int n) := by
  obtain ⟨hvalue, -⟩ := Option.filter_eq_some_iff.mp h
  cases op with
  | add | sub | mul =>
    dsimp only at hvalue
    rw [intArithmetic, hvalue]
    rfl
  -- Running looks at a divisor of zero first; folding finds nothing there.
  | floorDiv =>
    dsimp only at hvalue
    rw [intArithmetic, if_neg (Checked.ne_zero_of_floorDiv hvalue), hvalue]
    rfl
  | mod =>
    dsimp only at hvalue
    rw [intArithmetic, if_neg (Checked.ne_zero_of_floorMod hvalue), hvalue]
    rfl
  | div | pow => cases hvalue

/-- What folding finds is what running finds. -/
theorem binaryOp_of_fold? {op : BinaryOp} {a b n : Int64} (h : op.fold? a b = some n) :
    binaryOp op (.int a) (.int b) = pure (.int n) := by
  have hnumber : numberOp op (.int a) (.int b) = pure (.int n) := by
    simp only [numberOp, Value.number?, numArithmetic, intArithmetic_of_fold? h]
    rfl
  rw [← hnumber]
  cases op <;> rfl

section

variable {S : Setting} {V : View} {P : Pairing} {call : Label → List Value → Exec Value} {c c' : Nat}

/-- An integer constant costs fuel and nothing else. -/
theorem Sim.intValue {α β : Type} {A : Pairing → α → β → Prop} {e : Expr Label} {n : Int64} (h : e.intValue? = some n)
    {f : Value → Exec α} {m' : Exec β} (hm : Sim S V P c c' A (f (.int n)) m') :
    Sim S V P c c' A (e.eval ⟨S.budget, call⟩ >>= f) m' := by
  have hspare : ∀ k, Sim S V P (c + k) c' A (f (.int n)) m' := fun k => hm.spare (Nat.le_add_right c k)
  unfold Expr.intValue? at h
  split at h
  · cases h
    simp only [Expr.eval, Value.ofLiteral, bind_assoc, pure_bind]
    exact .chargeLeft 1 (hspare _)
  · rename_i l k m
    have heval : (Expr.unary l .neg (.constant k (.int m))).eval ⟨S.budget, call⟩ >>= f =
        (do charge S.budget 1; charge S.budget 1; f (.int n)) := by
      simp only [Expr.eval, Value.ofLiteral, signOp, signValue, Value.number?, signNumber, h, orOverflow,
        bind_assoc, pure_bind]
      rfl
    rw [heval]
    refine .chargeLeft 1 (.chargeLeft 1 ?_)
    rw [Nat.add_assoc]
    exact hspare _
  · cases h

end

/-! ### The operation replaced -/

theorem Expr.folded?_eq_some {e : Expr Label} {n : Int64} (h : e.folded? = some n) :
    ∃ l op left right a b, e = .binary l op left right ∧ left.intValue? = some a ∧ right.intValue? = some b ∧
      op.fold? a b = some n := by
  unfold Expr.folded? at h
  split at h
  · obtain ⟨a, ha, h⟩ := Option.bind_eq_some_iff.mp h
    obtain ⟨b, hb, h⟩ := Option.bind_eq_some_iff.mp h
    exact ⟨_, _, _, _, a, b, rfl, ha, hb, h⟩
  · cases h

/-- The exchange of an operation on constants for its value, in a program with these functions. -/
def Exchange.ofFold (functions : List Label) : Exchange :=
  .ofExpr (.ofFunctions functions) (fun e e' => ∃ n l, e.folded? = some n ∧ e' = .constant l (.int n)) <| by
    rintro e e' ⟨n, l, h, rfl⟩
    obtain ⟨_, _, _, _, _, _, rfl, -⟩ := Expr.folded?_eq_some h
    exact ⟨rfl, rfl⟩

section

variable {functions : List Label}

theorem Exchange.ofFold_isOpen : (Exchange.ofFold functions).IsOpen := ⟨fun _ _ => id, fun _ => trivial⟩

theorem Exchange.ofFold_keepsFunctions : (Exchange.ofFold functions).KeepsFunctions :=
  ⟨False.elim, False.elim⟩

theorem Exchange.ofFold_holds {S : Setting} {call call' : Label → List Value → Exec Value}
    (hsuits : (Exchange.ofFold functions).Suits S) (hcalls : CallsAlike S (fun _ => False) call call') :
    (Exchange.ofFold functions).Holds S call call' where
  suits := hsuits
  calls := hcalls
  part := False.elim
  body := False.elim
  expr := by
    rintro e e' ⟨n, l, h, rfl⟩ V P c
    obtain ⟨_, op, left, right, a, b, rfl, ha, hb, h⟩ := Expr.folded?_eq_some h
    rw [Expr.eval, Expr.eval]
    refine (Step.charge 1).bind fun _ _ _ => .intValue ha (.intValue hb ?_)
    rw [binaryOp_of_fold? h]
    exact .pure (.int n)

end

namespace Tree

/-- With an operation on constants replaced by its value, a program does what it did. -/
theorem fold_improvedBy {t : Tree} (h : t.WellFormed) {label : Label}
    (hsite : label ∈ Rule.constantFold.sites t) : ∃ t', Rule.constantFold.apply t label = .ok t' ∧
      (Program.ofTree t).ImprovedBy (Program.ofTree t') := by
  obtain ⟨e, he, hfoldable, rfl⟩ := Tree.mem_exprsWhere.mp hsite
  obtain ⟨value, hvalue⟩ := Option.isSome_iff_exists.mp hfoldable
  let t' : Tree := { t with
    next := t.next + 1
    body := Block.substituteExpr e.tag (.constant t.next (.int value)) t.body }
  have hresult : Rule.constantFold.result? t e.tag = some t' := by
    simp only [Rule.result?, fold?, h.hasLabels.expr?_tag he, hvalue, Option.bind_eq_bind, Option.bind_some]
    rfl
  refine ⟨t', by rw [Rule.apply, hresult], ?_⟩
  let X := Exchange.ofFold (Block.functionLabels t.body)
  have hbody : Block.Matches X none t.body t'.body := by
    refine Block.matches_substituteExpr Exchange.ofFold_isOpen (fun l hl => ⟨rfl, hl⟩) fun part hpart htag => ?_
    -- Labels are distinct, so nothing else is replaced.
    cases List.inj_on_of_nodup_map h.hasLabels.nodup hpart he htag
    exact ⟨value, t.next, hvalue, rfl⟩
  have hmatches : (Program.ofTree t).Matches X (Program.ofTree t') := by
    refine Program.matches_ofTree hbody Exchange.ofFold_keepsFunctions h.hasLabels (fun l l' hl => ?_)
      (fun _ _ => id) fun _ => id
    rw [Block.functionLabels, show t'.body = Block.substituteExpr e.tag _ t.body from rfl, Block.substituteExpr,
      Block.functionLabels_mapExprs]
    exact hl.1 ▸ hl.2
  exact hmatches.improvedBy Exchange.ofFold_isOpen fun S _ _ => Exchange.ofFold_holds

/-- A program with a quotient of constants that have signs. -/
def quotientOfConstants : String := "def f(n):\n    while n:\n        n = n - -7 // -2\n    return n\n"

theorem fold_improvedBy_quotientOfConstants : ∃ t label t', treeOf quotientOfConstants = .ok t ∧
    label ∈ Rule.constantFold.sites t ∧ Rule.constantFold.apply t label = .ok t' ∧
      (Program.ofTree t).ImprovedBy (Program.ofTree t') := by
  obtain ⟨t, label, ht, hderived, hsite⟩ : ∃ t label, treeOf quotientOfConstants = .ok t ∧ t.Derived ∧
      label ∈ Rule.constantFold.sites t := Rule.exists_site (by decide +kernel)
  obtain ⟨t', hresult, himproved⟩ := fold_improvedBy
    (hderived.hasLabels.wellFormed hderived.isWritable) hsite
  exact ⟨t, label, t', ht, hsite, hresult, himproved⟩

end Tree

end ProgramBreeding

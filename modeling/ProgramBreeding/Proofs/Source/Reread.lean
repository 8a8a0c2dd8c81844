import ProgramBreeding.Proofs.Execution.Fuel
import ProgramBreeding.Proofs.Rule.Behaviour
import ProgramBreeding.Proofs.Rule.Derived

/-!
# What is read back does the same

What is printed for a tree is read as the tree with a sign before every negative integer and `pass` in
every empty body, under labels of its own.  It does what the tree does, for a little more fuel.

## Main definitions

* `Exchange.ofReading` — what a program and what is read back from its text differ in.
* `Expr.matches_signed`, `Block.aligned` — they differ in nothing else.
* `Program.Alike` — programs that do the same, with what each of them needs of fuel.
* `Tree.Derived.reread` — trees and what is read back from their texts.

## Design notes

The functions of two programs that have the same shape stand for each other in the order of the text.
Which labels they have is known only when the whole of both programs is, so `Aligned` collects the pairs
on the way and leaves the labelling open.

A sign costs a unit, and so does `pass`.  A negative integer costs a unit itself, and no body is run unless
a unit has been spent for it; so the second run spends at most twice what the first one does.
-/

namespace ProgramBreeding

open Source

/-! ### Expressions -/

/-- A negative integer, and its opposite with a sign before it. -/
inductive Expr.SignedAs : Expr Label → Expr Label → Prop
  | sign (l l' k' : Label) {value : Int64} (h : value ≠ Int64.minValue) :
    Expr.SignedAs (.constant l (.int value)) (.unary l' .neg (.constant k' (.int (-value))))

/-- What a program and what is read back from its text differ in. -/
def Exchange.ofReading (labels : Labelling) : Exchange where
  labels := labels
  expr := Expr.SignedAs
  part _ _ _ := False
  body b b' := b = [] ∧ ∃ l, b' = [.pass l]
  not_assignable := by
    rintro _ _ ⟨⟩
    exact ⟨rfl, rfl⟩

section

variable {L : Labelling} {owner : Option Label}

theorem Literal.matches_signed {value : Literal} (hvalue : IsWritableLiteral value) (l : Label) {e' : Expr Label}
    (h : shapeOf e' = shapeOf (value.signed l)) : (Expr.constant l value).Matches (.ofReading L) owner e' := by
  have hplain : shapeOf e' = .constant () value → (Expr.constant l value).Matches (.ofReading L) owner e' := by
    intro h
    cases e' with
    | constant =>
      cases h
      exact .constant ..
    | _ => cases h
  cases value with
  | int value =>
    -- Only a negative integer is read back as something else.
    by_cases hneg : value < 0
    · rw [Literal.signed, if_pos hneg] at h
      cases e' with
      | unary l' op operand =>
        cases operand with
        | constant =>
          cases h
          exact .exchanged (.sign _ _ _ hvalue)
        | _ => cases h
      | _ => cases h
    · rw [Literal.signed, if_neg hneg] at h
      exact hplain h
  | _ => exact hplain h

mutual

theorem Expr.matches_signed : ∀ {e e' : Expr Label}, (∀ part ∈ e.subterms, part.IsWritable) →
    shapeOf e' = shapeOf e.signed → e.Matches (.ofReading L) owner e'
  | .name .., e', _, h => by
    cases e' with
    | name => cases h; exact .name _ _ id
    | _ => cases h
  | .constant .., _, hw, h => Literal.matches_signed (hw _ (List.mem_singleton_self _)) _ h
  | .list .., e', hw, h => by
    cases e' with
    | list =>
      obtain ⟨-, hitems⟩ := Expr.list.inj h
      exact .list _ _ (Exprs.matches_signed (fun part hpart => hw part (.tail _ hpart)) hitems)
    | _ => cases h
  | .comprehension .., e', hw, h => by
    cases e' with
    | comprehension =>
      obtain ⟨-, rfl, helement, rfl, hsource, hcond⟩ := Expr.comprehension.inj h
      exact .comprehension _ _ _ trivial
        (Expr.matches_signed (fun part hpart => hw part (by simp [Expr.subterms, hpart])) helement)
        (Expr.matches_signed (fun part hpart => hw part (by simp [Expr.subterms, hpart])) hsource)
        (Cond.matches_signed (fun part hpart => hw part (by simp [Expr.subterms, hpart])) hcond)
    | _ => cases h
  | .binary .., e', hw, h => by
    cases e' with
    | binary =>
      obtain ⟨-, rfl, hleft, hright⟩ := Expr.binary.inj h
      exact .binary _ _ _
        (Expr.matches_signed (fun part hpart => hw part (by simp [Expr.subterms, hpart])) hleft)
        (Expr.matches_signed (fun part hpart => hw part (by simp [Expr.subterms, hpart])) hright)
    | _ => cases h
  | .unary .., e', hw, h => by
    cases e' with
    | unary =>
      obtain ⟨-, rfl, hoperand⟩ := Expr.unary.inj h
      exact .unary _ _ _ (Expr.matches_signed (fun part hpart => hw part (.tail _ hpart)) hoperand)
    | _ => cases h
  | .logic .., e', hw, h => by
    cases e' with
    | logic =>
      obtain ⟨-, rfl, hleft, hright⟩ := Expr.logic.inj h
      exact .logic _ _ _
        (Expr.matches_signed (fun part hpart => hw part (by simp [Expr.subterms, hpart])) hleft)
        (Expr.matches_signed (fun part hpart => hw part (by simp [Expr.subterms, hpart])) hright)
    | _ => cases h
  | .compare .., e', hw, h => by
    cases e' with
    | compare =>
      obtain ⟨-, rfl, hleft, hright⟩ := Expr.compare.inj h
      exact .compare _ _ _
        (Expr.matches_signed (fun part hpart => hw part (by simp [Expr.subterms, hpart])) hleft)
        (Expr.matches_signed (fun part hpart => hw part (by simp [Expr.subterms, hpart])) hright)
    | _ => cases h
  | .call .., e', hw, h => by
    cases e' with
    | call =>
      obtain ⟨-, hcallee, hargs⟩ := Expr.call.inj h
      exact (Expr.matches_signed (fun part hpart => hw part (by simp [Expr.subterms, hpart])) hcallee).call_of _ _
        (Exprs.matches_signed (fun part hpart => hw part (by simp [Expr.subterms, hpart])) hargs)
    | _ => cases h
  | .attribute .., e', hw, h => by
    cases e' with
    | «attribute» =>
      obtain ⟨-, hvalue, rfl⟩ := Expr.attribute.inj h
      exact .attribute _ _ _ (Expr.matches_signed (fun part hpart => hw part (.tail _ hpart)) hvalue)
    | _ => cases h
  | .subscript .., e', hw, h => by
    cases e' with
    | subscript =>
      obtain ⟨-, hvalue, hindex⟩ := Expr.subscript.inj h
      exact .subscript _ _
        (Expr.matches_signed (fun part hpart => hw part (by simp [Expr.subterms, hpart])) hvalue)
        (Expr.matches_signed (fun part hpart => hw part (by simp [Expr.subterms, hpart])) hindex)
    | _ => cases h

theorem Exprs.matches_signed : ∀ {es es' : List (Expr Label)}, (∀ part ∈ Expr.subtermsAll es, part.IsWritable) →
    Expr.mapAll (fun _ => ()) es' = Expr.mapAll (fun _ => ()) (Expr.signedAll es) →
      Exprs.Matches (.ofReading L) owner es es'
  | [], [], _, _ => .nil
  | [], _ :: _, _, h | _ :: _, [], _, h => nomatch h
  | _ :: _, _ :: _, hw, h => by
    obtain ⟨he, hrest⟩ := List.cons.inj h
    exact .cons (Expr.matches_signed (fun part hpart => hw part (List.mem_append_left _ hpart)) he)
      (Exprs.matches_signed (fun part hpart => hw part (List.mem_append_right _ hpart)) hrest)

theorem Cond.matches_signed : ∀ {cond cond' : Option (Expr Label)},
    (∀ part ∈ Expr.subtermsCond cond, part.IsWritable) →
      Expr.mapCond (fun _ => ()) cond' = Expr.mapCond (fun _ => ()) (Expr.signedCond cond) →
        Cond.Matches (.ofReading L) owner cond cond'
  | none, none, _, _ => .none
  | none, some _, _, h | some _, none, _, h => nomatch h
  | some _, some _, hw, h => .some (Expr.matches_signed hw (Option.some.inj h))

end

end

/-! ### Statements -/

/-- What holds if the functions of two programs stand for each other in their order. -/
def Aligned (functions functions' : List Label) (m : Labelling → Prop) : Prop :=
  ∃ pairs : List (Label × Label), functions = pairs.map Prod.fst ∧ functions' = pairs.map Prod.snd ∧
    ∀ L : Labelling, (∀ p ∈ pairs, L.rel p.1 p.2) → m L

namespace Aligned

variable {ls ls' ks ks' : List Label} {m n : Labelling → Prop}

theorem nil (h : ∀ L, m L) : Aligned [] [] m := ⟨[], rfl, rfl, fun L _ => h L⟩

theorem imp (h : Aligned ls ls' m) (hn : ∀ L, m L → n L) : Aligned ls ls' n := by
  obtain ⟨pairs, hls, hls', hm⟩ := h
  exact ⟨pairs, hls, hls', fun L hL => hn L (hm L hL)⟩

theorem cons {l l' : Label} (h : Aligned ls ls' m) : Aligned (l :: ls) (l' :: ls') fun L => L.rel l l' ∧ m L := by
  obtain ⟨pairs, rfl, rfl, hm⟩ := h
  exact ⟨(l, l') :: pairs, rfl, rfl, fun L hL =>
    ⟨hL _ (List.mem_cons_self ..), hm L fun p hp => hL p (List.mem_cons_of_mem _ hp)⟩⟩

theorem append (h : Aligned ls ls' m) (h' : Aligned ks ks' n) :
    Aligned (ls ++ ks) (ls' ++ ks') fun L => m L ∧ n L := by
  obtain ⟨pairs, rfl, rfl, hm⟩ := h
  obtain ⟨pairs', rfl, rfl, hn⟩ := h'
  exact ⟨pairs ++ pairs', (List.map_append).symm, (List.map_append).symm, fun L hL =>
    ⟨hm L fun p hp => hL p (List.mem_append_left _ hp), hn L fun p hp => hL p (List.mem_append_right _ hp)⟩⟩

end Aligned

theorem Body.aligned {owner : Option Label} {body b' : Block Label} {tag : Label}
    (hblock : ∀ {b' : Block Label}, Block.shape b' = Block.shape (Block.filled (Block.signed body)) →
      Aligned (Block.functionLabels body) (Block.functionLabels b') fun L =>
        Block.Matches (.ofReading L) owner body b')
    (h : Block.shape b' = Block.shape (Block.orPass tag (Block.filled (Block.signed body)))) :
    Aligned (Block.functionLabels body) (Block.functionLabels b') fun L =>
      Body.Matches (.ofReading L) owner body b' := by
  cases body with
  | cons s rest => exact (hblock h).imp fun _ => .block
  | nil =>
    cases b' with
    | nil => cases h
    | cons s' rest' =>
      cases rest' with
      | cons => exact nomatch (List.cons.inj h).2
      | nil =>
        obtain ⟨hs, -⟩ := List.cons.inj h
        cases s' with
        | pass l => exact .nil fun _ => .exchanged ⟨rfl, l, rfl⟩
        | _ => cases hs

theorem Expr.matches_signed_of_nodes {L : Labelling} {owner : Option Label} {e e' : Expr Label}
    {nodes : List (Node Label)} (hw : ∀ node ∈ nodes, node.IsWritable) (he : ∀ node ∈ e.nodes, node ∈ nodes)
    (h : shapeOf e' = shapeOf e.signed) : e.Matches (.ofReading L) owner e' :=
  Expr.matches_signed (Expr.isWritable_subterms fun node hn => hw node (he node hn)) h

mutual

theorem Stmt.aligned {owner : Option Label} : ∀ {s s' : Stmt Label}, (∀ node ∈ s.nodes, node.IsWritable) →
    shapeOfStmt s' = shapeOfStmt (s.mapExprs Expr.signed).filled →
      Aligned (s.functions.map Prod.fst) (s'.functions.map Prod.fst) fun L => s.Matches (.ofReading L) owner s'
  | .functionDef l _ _ body, s', hw, h => by
    cases s' with
    | functionDef =>
      obtain ⟨-, rfl, rfl, hbody⟩ := Stmt.functionDef.inj h
      have hblock : Aligned _ _ fun L => Body.Matches (.ofReading L) (some l) body _ :=
        Body.aligned (Block.aligned fun node hn => hw node (.tail _ hn)) hbody
      exact hblock.cons.imp fun L ⟨hl, hmatch⟩ => .functionDef hl trivial (fun _ _ => trivial) hmatch
    | _ => cases h
  | .ret _ none, s', _, h => by
    cases s' with
    | ret _ value =>
      cases value with
      | none => exact .nil fun L => .ret ..
      | some => cases h
    | _ => cases h
  | .ret _ (some _), s', hw, h => by
    cases s' with
    | ret _ value =>
      cases value with
      | none => cases h
      | some =>
        obtain ⟨-, hvalue⟩ := Stmt.ret.inj h
        exact .nil fun L => .retValue _ _ (Expr.matches_signed_of_nodes hw (fun node hn => .tail _ hn)
          (Option.some.inj hvalue))
    | _ => cases h
  | .assign .., s', hw, h => by
    cases s' with
    | assign =>
      obtain ⟨-, htarget, hvalue⟩ := Stmt.assign.inj h
      exact .nil fun L => .assign _ _ (fun _ _ => trivial)
        (Expr.matches_signed_of_nodes hw (fun node hn => by simp [Stmt.nodes, hn]) htarget)
        (Expr.matches_signed_of_nodes hw (fun node hn => by simp [Stmt.nodes, hn]) hvalue)
    | _ => cases h
  | .augAssign .., s', hw, h => by
    cases s' with
    | augAssign =>
      obtain ⟨-, htarget, rfl, hvalue⟩ := Stmt.augAssign.inj h
      exact .nil fun L => .augAssign _ _ _ (fun _ _ => trivial)
        (Expr.matches_signed_of_nodes hw (fun node hn => by simp [Stmt.nodes, hn]) htarget)
        (Expr.matches_signed_of_nodes hw (fun node hn => by simp [Stmt.nodes, hn]) hvalue)
    | _ => cases h
  | .forLoop .., s', hw, h => by
    cases s' with
    | forLoop =>
      obtain ⟨-, rfl, hsource, hbody⟩ := Stmt.forLoop.inj h
      have hblock : Aligned _ _ fun L => Body.Matches (.ofReading L) owner _ _ :=
        Body.aligned (Block.aligned fun node hn => hw node (by simp [Stmt.nodes, hn])) hbody
      exact hblock.imp fun L => .forLoop _ _ trivial
        (Expr.matches_signed_of_nodes hw (fun node hn => by simp [Stmt.nodes, hn]) hsource)
    | _ => cases h
  | .whileLoop .., s', hw, h => by
    cases s' with
    | whileLoop =>
      obtain ⟨-, htest, hbody⟩ := Stmt.whileLoop.inj h
      have hblock : Aligned _ _ fun L => Body.Matches (.ofReading L) owner _ _ :=
        Body.aligned (Block.aligned fun node hn => hw node (by simp [Stmt.nodes, hn])) hbody
      exact hblock.imp fun L => .whileLoop _ _
        (Expr.matches_signed_of_nodes hw (fun node hn => by simp [Stmt.nodes, hn]) htest)
    | _ => cases h
  | .ifElse .., s', hw, h => by
    cases s' with
    | ifElse =>
      obtain ⟨-, htest, hbody, horelse⟩ := Stmt.ifElse.inj h
      have hthen : Aligned _ _ fun L => Body.Matches (.ofReading L) owner _ _ :=
        Body.aligned (Block.aligned fun node hn => hw node (by simp [Stmt.nodes, hn])) hbody
      have helse : Aligned _ _ fun L => Block.Matches (.ofReading L) owner _ _ :=
        Block.aligned (fun node hn => hw node (by simp [Stmt.nodes, hn])) horelse
      simp only [Stmt.functions, List.map_append]
      exact (hthen.append helse).imp fun L ⟨hmatch, hmatch'⟩ => .ifElse _ _
        (Expr.matches_signed_of_nodes hw (fun node hn => by simp [Stmt.nodes, hn]) htest) hmatch hmatch'
    | _ => cases h
  | .expr .., s', hw, h => by
    cases s' with
    | expr =>
      obtain ⟨-, hvalue⟩ := Stmt.expr.inj h
      exact .nil fun L => .expr _ _ (Expr.matches_signed_of_nodes hw (fun node hn => .tail _ hn) hvalue)
    | _ => cases h
  | .pass _, s', _, h => by
    cases s' with
    | pass => exact .nil fun L => .pass ..
    | _ => cases h
  | .brk _, s', _, h => by
    cases s' with
    | brk => exact .nil fun L => .brk ..
    | _ => cases h
  | .cont _, s', _, h => by
    cases s' with
    | cont => exact .nil fun L => .cont ..
    | _ => cases h

/-- By induction on the program: what is read back matches it, if its functions stand for the ones in
the same places. -/
theorem Block.aligned {owner : Option Label} : ∀ {body b' : List (Stmt Label)},
    (∀ node ∈ Block.nodes body, node.IsWritable) →
    Block.shape b' = Block.shape (Block.filled (Block.signed body)) →
      Aligned ((Block.functions body).map Prod.fst) ((Block.functions b').map Prod.fst) fun L =>
        Block.Matches (.ofReading L) owner body b'
  | [], [], _, _ => .nil fun _ => .nil
  | [], _ :: _, _, h | _ :: _, [], _, h => nomatch h
  | _ :: _, _ :: _, hw, h => by
    obtain ⟨hs, hrest⟩ := List.cons.inj h
    have hfirst : Aligned _ _ fun L => Stmt.Matches (.ofReading L) owner _ _ :=
      Stmt.aligned (fun node hn => hw node (List.mem_append_left _ hn)) hs
    have hblock : Aligned _ _ fun L => Block.Matches (.ofReading L) owner _ _ :=
      Block.aligned (fun node hn => hw node (List.mem_append_right _ hn)) hrest
    simp only [Block.functions, List.map_append]
    exact (hfirst.append hblock).imp fun L ⟨hmatch, hmatch'⟩ => .cons hmatch hmatch'

end

/-! ### Runs -/

theorem Checked.neg_neg {value : Int64} (h : value ≠ Int64.minValue) : Checked.neg (-value) = some value := by
  have hle := Int64.minValue_le_toInt value
  have hge := Int64.toInt_le value
  rw [Checked.neg, toInt_neg_of_ne h, Int.neg_neg, Checked.word?, dif_pos ⟨by omega, by omega⟩]
  exact congrArg some (Int64.toInt_inj.mp (by simp))

/-- The opposite of an integer, with a sign before it, costs one unit more than the integer. -/
theorem Expr.eval_sign (env : Env) (l k : Label) {value : Int64} (h : value ≠ Int64.minValue) :
    (Expr.unary l .neg (.constant k (.int (-value)))).eval env = (do
      charge env.budget 1
      charge env.budget 1
      return .int value) := by
  simp only [Expr.eval, Value.ofLiteral, signOp, signValue, Value.number?, signNumber, Checked.neg_neg h,
    orOverflow, bind_assoc, pure_bind]
  rfl

theorem Block.exec_pass (env : Env) (l : Label) :
    Block.exec env [.pass l] = (do charge env.budget 1; return .next) := by
  simp only [Block.exec, Stmt.exec, bind_assoc, pure_bind]

section

variable {S : Setting} {call call' : Label → List Value → Exec Value}

/-- What is read back does what the program does, for one more unit for each of its units. -/
theorem Exchange.ofReading_holds (hextra : S.extra = 1) (hsuits : (Exchange.ofReading S.labels).Suits S)
    (hcalls : CallsAlike S (fun _ => False) call call') :
    (Exchange.ofReading S.labels).Holds S call call' where
  suits := hsuits
  calls := hcalls
  part := False.elim
  expr := by
    rintro _ _ ⟨l, l', k', hmin⟩ V P c
    rw [Expr.eval_sign _ _ _ hmin, Expr.eval]
    refine (Step.earn 1).bind fun _ _ _ => .chargeRight 1 ?_ (Sim.spare ?_ (.pure (.int _)))
    all_goals simp only [hextra, UInt64.toNat_one]; omega
  body := by
    rintro owner _ _ V ⟨rfl, l, rfl⟩ _ P c
    rw [Block.exec_pass, Block.exec]
    refine .chargeRight 1 ?_ (Sim.spare ?_ (.pure .next))
    all_goals simp only [hextra, UInt64.toNat_one]; omega

/-- A program does what is read back does, for no more fuel. -/
theorem Exchange.symm_ofReading_holds {L : Labelling} (hsuits : (Exchange.ofReading L).symm.Suits S)
    (hcalls : CallsAlike S (fun _ => False) call call') : (Exchange.ofReading L).symm.Holds S call call' where
  suits := hsuits
  calls := hcalls
  part := fun ⟨_, h⟩ => h.elim
  expr := by
    rintro _ _ ⟨l, l', k', hmin⟩ V P c
    rw [Expr.eval_sign _ _ _ hmin, Expr.eval]
    exact (Step.charge 1).bind fun _ _ _ => .chargeLeft 1 (Sim.spare (Nat.le_add_right ..) (.pure (.int _)))
  body := by
    rintro owner _ _ V ⟨rfl, l, rfl⟩ _ P c
    rw [Block.exec_pass, Block.exec]
    exact .chargeLeft 1 (Sim.spare (by omega) (.pure .next))

end

theorem Exchange.ofReading_keepsFunctions (L : Labelling) : (Exchange.ofReading L).KeepsFunctions where
  part := False.elim
  body := by
    rintro _ _ ⟨rfl, l, rfl⟩
    exact .nil

theorem Exchange.symm_ofReading_keepsFunctions (L : Labelling) : (Exchange.ofReading L).symm.KeepsFunctions where
  part h := h.choose_spec.elim
  body := by
    rintro _ _ ⟨rfl, l, rfl⟩
    exact .nil

/-- Functions stand for each other pair by pair. -/
def Labelling.ofPairs (pairs : List (Label × Label)) (h : (pairs.map Prod.fst).Nodup)
    (h' : (pairs.map Prod.snd).Nodup) : Labelling where
  rel l l' := (l, l') ∈ pairs
  unique hl hk :=
    ⟨fun heq => congrArg Prod.snd (List.inj_on_of_nodup_map h hl hk heq),
      fun heq => congrArg Prod.fst (List.inj_on_of_nodup_map h' hl hk heq)⟩

namespace Program

/-- Programs that do the same.  If the fuel lasts for both of them, they come to the same value or error
and to the same output; and what lasts for one of them, or little more, lasts for the other one. -/
def Alike (p p' : Program) : Prop :=
  ∀ (fuel fuel' : UInt64) (name : String) (args : List Datum),
    let r := (p.perform { fuel } name args).run {}
    let r' := (p'.perform { fuel := fuel' } name args).run {}
    (Completes r → Completes r' → answer r' = answer r ∧ (endState r').output = (endState r).output) ∧
      (Completes r → min (2 * fuel.toNat + 1) (UInt64.size - 1) ≤ fuel'.toNat → Completes r') ∧
      (Completes r' → fuel' ≤ fuel → Completes r)

/-- Fuel that lasts makes no difference. -/
theorem perform_eq_of_completes (p : Program) {fuel fuel' : UInt64} {name : String} {args : List Datum}
    (h : Completes ((p.perform { fuel } name args).run {}))
    (h' : Completes ((p.perform { fuel := fuel' } name args).run {})) :
    (p.perform { fuel } name args).run {} = (p.perform { fuel := fuel' } name args).run {} := by
  wlog hle : fuel ≤ fuel' generalizing fuel fuel'
  · exact (this h' h ((UInt64.le_total fuel fuel').resolve_left hle)).symm
  by_cases hroom : fuel.toNat + 1 < UInt64.size
  · -- With less fuel a run is cut off, or it is the same run.
    have hcut := p.perform_cutOff name args hle hroom
    generalize (p.perform { fuel } name args).run {} = r at h hcut
    generalize (p.perform { fuel := fuel' } name args).run {} = r' at h' hcut
    cases hcut with
    | same _ => rfl
    | cut s _ => exact absurd rfl (h fuel)
    | starved _ s => exact absurd rfl (h' fuel')
  · -- There is no more fuel than the greatest word.
    have hfuel := fuel'.toNat_lt_size
    rw [UInt64.le_iff_toNat_le] at hle
    rw [UInt64.toNat.inj (show fuel.toNat = fuel'.toNat by omega)]

/-- A program that simulates and is simulated. -/
theorem alike_of_matches {L : Labelling} {p p' : Program} (h : p.Matches (.ofReading L) p')
    (h' : p'.Matches (Exchange.ofReading L).symm p) : p.Alike p' := by
  intro fuel fuel' name args r r'
  have hforward : ∀ fuel', Completes r → min (2 * fuel.toNat + 1) (UInt64.size - 1) ≤ fuel'.toNat →
      answer ((p'.perform { fuel := fuel' } name args).run {}) = answer r := by
    intro fuel' hends henough
    let S : Setting := { labels := L, fuel, fuel', extra := 1, enough := henough }
    have hsuits : (Exchange.ofReading L).Suits S := ⟨rfl, id⟩
    exact (Matches.answer (S := S) h hsuits trivial (fun _ => Exchange.ofReading_holds rfl hsuits) id rfl rfl hends).1
  have hbackward : ∀ fuel, fuel' ≤ fuel → Completes r' →
      answer ((p.perform { fuel } name args).run {}) = answer r' ∧
        (endState ((p.perform { fuel } name args).run {})).output = (endState r').output := by
    intro fuel hle hends
    have henough : min ((1 + 0) * fuel'.toNat + 0) (UInt64.size - 1) ≤ fuel.toNat := by
      have := UInt64.le_iff_toNat_le.mp hle
      omega
    let S : Setting := { labels := L.symm, fuel := fuel', fuel' := fuel, extra := 0, enough := henough }
    have hsuits : (Exchange.ofReading L).symm.Suits S := ⟨rfl, id⟩
    obtain ⟨hanswer, houtput, -⟩ :=
      Matches.answer (S := S) h' hsuits trivial (fun _ => Exchange.symm_ofReading_holds hsuits) id rfl rfl hends
    exact ⟨hanswer, houtput⟩
  refine ⟨fun hends hends' => ?_, fun hends henough => ?_, fun hends' hle => ?_⟩
  -- Under the fuel of the second program the first one ends as it does, and so it does under its own.
  · obtain ⟨hanswer, houtput⟩ := hbackward fuel' (UInt64.le_refl _) hends'
    have hends'' : Completes ((p.perform { fuel := fuel' } name args).run {}) := fun f => by
      rw [hanswer]
      exact hends' f
    rw [← p.perform_eq_of_completes hends hends''] at hanswer houtput
    exact ⟨hanswer.symm, houtput.symm⟩
  · intro f
    rw [hforward fuel' hends henough]
    exact hends f
  · intro f
    rw [(hbackward fuel hle hends').1]
    exact hends' f

end Program

/-- What is read back from the text of a tree is the tree with signs and `pass`, and does the same. -/
theorem Tree.Derived.reread {t : Tree} (h : t.Derived) {body' : Block Line} (lineage : Nat)
    (hparse : parse (render t.body) = .ok body') :
    Block.shape (Tree.ofBlock lineage body').body = Block.shape (Block.filled (Block.signed t.body)) ∧
      (Program.ofTree t).Alike (Program.ofTree (Tree.ofBlock lineage body')) := by
  have hshape : Block.shape body' = Block.shape (Block.filled (Block.signed t.body)) := by
    rcases Block.IsWritable.readsAs h.isWritable.nodes with ⟨_, hread, hshape⟩ | ⟨_, _, hdeep⟩
    · cases hparse.symm.trans hread
      exact hshape
    · cases hparse.symm.trans hdeep
  have hshape' : Block.shape (Tree.ofBlock lineage body').body = Block.shape (Block.filled (Block.signed t.body)) :=
    (Block.number_shape body' 0).trans hshape
  refine ⟨hshape', ?_⟩
  have hlabels' : (Tree.ofBlock lineage body').HasLabels := Tree.ofBlock_hasLabels lineage body'
  -- Nothing is used of the labels but that they are distinct.
  generalize Tree.ofBlock lineage body' = t' at hshape' hlabels'
  obtain ⟨pairs, hfst, hsnd, hmatches⟩ := Block.aligned h.isWritable.nodes hshape'
  let L := Labelling.ofPairs pairs
    (hfst ▸ (Block.sublist_functions t.body).nodup h.hasLabels.nodup)
    (hsnd ▸ (Block.sublist_functions t'.body).nodup hlabels'.nodup)
  have hbody : Block.Matches (.ofReading L) none t.body t'.body := hmatches L fun _ hp => hp
  refine Program.alike_of_matches (L := L) ?_ ?_
  · refine Program.matches_ofTree hbody (Exchange.ofReading_keepsFunctions L) h.hasLabels (fun l l' hl => ?_)
      (fun _ _ => id) fun _ => id
    rw [Block.functionLabels, hsnd]
    exact List.mem_map_of_mem (f := Prod.snd) hl
  · refine Program.matches_ofTree hbody.symm (Exchange.symm_ofReading_keepsFunctions L) hlabels' (fun l l' hl => ?_)
      (fun _ _ => id) fun _ => id
    rw [Block.functionLabels, hfst]
    exact List.mem_map_of_mem (f := Prod.fst) hl

/-- A program with a difference of constants that is negative. -/
def negativeDifference : String := "def f(n):\n    if n:\n        return 1 - 3\n    return n\n"

theorem Tree.Derived.reread_negativeDifference : ∃ t t' body', treeOf negativeDifference = .ok t ∧ t.Edit t' ∧
    parse (render t'.body) = .ok body' ∧
      Block.shape (Tree.ofBlock 0 body').body = Block.shape (Block.filled (Block.signed t'.body)) ∧
        (Program.ofTree t').Alike (Program.ofTree (Tree.ofBlock 0 body')) := by
  have hrun : ∃ body', ((treeOf negativeDifference).toOption.bind fun t =>
      (Rule.constantFold.sites t).head?.bind fun label =>
        (Rule.constantFold.apply t label).toOption.bind fun t' => (parse (render t'.body)).toOption) = some body' :=
    Option.isSome_iff_exists.mp (by decide +kernel)
  obtain ⟨body', hrun⟩ := hrun
  simp only [Option.bind_eq_some_iff, toOption_eq_some] at hrun
  obtain ⟨t, ht, label, hsite, t', hresult, hparse⟩ := hrun
  have hedit : t.Edit t' := .rule (List.mem_of_mem_head? hsite) hresult
  obtain ⟨hshape, halike⟩ := Tree.Derived.reread ((Tree.Derived.of_treeOf ht).edit hedit) 0 hparse
  exact ⟨t, t', body', ht, hedit, hparse, hshape, halike⟩

end ProgramBreeding

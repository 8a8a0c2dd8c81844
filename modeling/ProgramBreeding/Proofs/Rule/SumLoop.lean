import ProgramBreeding.Proofs.Rule.ConstantFold
import ProgramBreeding.Proofs.Rule.GatheringLoop
import ProgramBreeding.Proofs.Rule.Steps

/-!
# Loops that add up

A loop that adds elements to a variable which starts at zero, and the sum that takes its place.  The second run
adds in the same order, only later, so its partial sums are those that the variable has held.

## Main definitions

* `Totalling` — the total so far.
* `Block.sim_sumLoop`, `Block.sim_sumOver` — the loop beside the sum of a generator, or of what it runs over.
* `Tree.accumulationToSum_keptBy` — programs that complete are kept.

## Design notes

A start other than zero is added last by the program that the rule makes.  Integers may then overflow on the way
where they did not before, and doubles are rounded elsewhere, so nothing is said of such a start.
-/

namespace ProgramBreeding

variable {S : Setting} {V : View} {P Q : Pairing} {c : Nat}

/-! ### The total -/

/-- The total of the values that the comprehension has found so far, the last one first. -/
def Totalling (found : List Value) (_ : Pairing) (v : Value) : Prop :=
  ∃ n : Num, v = n.toValue ∧ addAll (.int 0) found.reverse = pure v

theorem Totalling.mono (found : List Value) (P Q : Pairing) (v : Value) (_ : P ≤ Q) (h : Totalling found P v) :
    Totalling found Q v := h

theorem Totalling.zero : Totalling [] P (.int 0) := ⟨.int 0, rfl, rfl⟩

theorem addAll_append (total : Value) (vs ws : List Value) :
    addAll total (vs ++ ws) = (do addAll (← addAll total vs) ws) := by
  induction vs generalizing total with
  | nil => exact (pure_bind _ _).symm
  | cons v vs ih => simp only [List.cons_append, addAll, ih, bind_assoc]

/-- A number and another value are added as numbers. -/
theorem binaryOp_add_toValue (n : Num) (w : Value) : binaryOp .add n.toValue w = numberOp .add n.toValue w := by
  cases n <;> cases w <;> rfl

theorem Num.number?_toValue (n : Num) : n.toValue.number? = some n := by cases n <;> rfl

theorem Totalling.add {found : List Value} {n k : Num} {w : Value} (h : Totalling found P n.toValue)
    (hadd : binaryOp .add n.toValue w = pure k.toValue) : Totalling (w :: found) P k.toValue := by
  obtain ⟨_, -, htotal⟩ := h
  refine ⟨k, rfl, ?_⟩
  rw [List.reverse_cons, addAll_append, htotal, pure_bind]
  show binaryOp .add n.toValue w >>= pure = _
  rw [bind_pure, hadd]

section

variable {α β : Type} {post : α → β → State → State → Prop} {n : Exec α} {n' : Exec β} {F : Assumption}
  {result : String} {total v v' : Value} {found : List Value}

/-- The first run adds to its total. -/
theorem Alike.addLeft {f : Value → Exec α} (hfaithful : ¬ S.faithful) (htotal : Totalling found Q total)
    (hv : v.Agree S.labels Q v')
    (h : ∀ total', Totalling (v' :: found) Q total' → Alike S (F.Within S V Q c) post (f total') n') :
    Alike S (F.Within S V Q c) post (binaryOp .add total v >>= f) n' := by
  obtain ⟨k, rfl, hfound⟩ := htotal
  have hsame : binaryOp .add k.toValue v' = numberOp .add k.toValue v' := binaryOp_add_toValue k v'
  rw [binaryOp_add_toValue]
  unfold numberOp at hsame ⊢
  rw [k.number?_toValue] at hsame ⊢
  rw [hv.number?_eq]
  cases hnumber : v'.number? with
  | none => exact Alike.raiseLeft _ _ hfaithful
  | some m =>
    rw [hnumber] at hsame
    dsimp only at hsame ⊢
    cases hresult : numArithmetic .add k m with
    | error fault => exact Alike.raiseLeft fault _ hfaithful
    | ok total' =>
      rw [hresult] at hsame
      simp only [ofExcept, pure_bind] at hsame ⊢
      exact h total'.toValue (Totalling.add ⟨k, rfl, hfound⟩ hsame)

/-- What adding to a variable does. -/
theorem Block.exec_add (env : Env) (l k : Label) (x : String) (element : Expr Label) :
    Block.exec env [.augAssign l (.name k x) .add element] = (do
      charge env.budget 1
      charge env.budget 1
      let total ← getVar x
      let v ← element.eval env
      augment env (.name k x) .add total v
      return .next) := by
  rw [Block.exec_singleton]
  simp only [Stmt.exec, Expr.eval, bind_assoc]

theorem Totalling.augment_eq (h : Totalling found P total) (env : Env) (k : Label) (x : String) (v : Value) :
    augment env (.name k x) .add total v = (do setVar x (← binaryOp .add total v)) := by
  obtain ⟨n, rfl, -⟩ := h
  refine ProgramBreeding.augment_eq env _ fun ref other _ hlist => ?_
  cases n <;> cases hlist

end

section

variable {fs fs' : List (Label × FunctionDef)} {depth : Nat} {functions : List Label} {names : String → Prop}
  {owner : Option Label} {x result : String} {part part' : Block Label} {element : Expr Label}

/-- Adding gathers. -/
theorem Alike.gatherAdd (l k : Label) (hfaithful : ¬ S.faithful) (hname : S.names result)
    (hcalls : CallsAlike S (Exchange.ofLoop functions names owner x result part part').concealed
      (callFunction fs S.budget depth) (callFunction fs' S.budget' depth))
    (hV : V.Fits (.ofLoop functions names owner x result part part') owner)
    (helement : element.mentions result = false)
    (hnames : ∀ part ∈ element.subterms, ∀ y ∈ (Node.expr part).boundNames, S.names y) (found : List Value) :
    Alike S (Gathered S (V.withTop (· = result)) P Totalling result c found)
      (fun flow v s s' => flow = .next ∧ Gathered S (V.withTop (· = result)) P Totalling result c (v :: found) s s')
      (Block.exec ⟨S.budget, callFunction fs S.budget depth⟩ [.augAssign l (.name k result) .add element])
      (element.eval ⟨S.budget', callFunction fs' S.budget' depth⟩) := by
  refine Alike.ofGathered fun Q total hle htotal => ?_
  rw [Block.exec_add, ← bind_pure (element.eval ⟨S.budget', _⟩)]
  -- One of the units is saved for the sum.
  refine Assumption.saveLeft ?_
  refine Assumption.wasteLeft 1 (Assumption.getLeft (fun _ _ _ => id) ?_)
  refine (element.simUnder_ofLoop hcalls hV helement hnames _ Q _).andThen fun R hle' v v' hv => ?_
  rw [htotal.augment_eq, bind_assoc]
  refine Alike.addLeft hfaithful htotal hv fun total' htotal' => ?_
  refine Assumption.rebindLeft hname (by rw [View.top_withTop]) ?_
  exact .pure fun s s' hwithin => ⟨rfl, R, total', le_trans hle hle', htotal', hwithin⟩

/-- Adding up what a loop runs over. -/
theorem Alike.roundAdd (l k k' : Label) (call : Label → List Value → Exec Value) (hfaithful : ¬ S.faithful)
    (hname : S.names result) (hx : S.names x) (hne : result ≠ x) {item item' : Value}
    (hitem : item.Agree S.labels P item') (found : List Value) :
    Alike S (Gathered S (V.withTop fun y => y = x ∨ y = result) P Totalling result c found)
      (fun flow _ s s' => flow = .next ∧
        Gathered S (V.withTop fun y => y = x ∨ y = result) P Totalling result c (item' :: found) s s')
      (do
        charge S.budget 1
        setVar x item
        Block.exec ⟨S.budget, call⟩ [.augAssign l (.name k result) .add (.name k' x)])
      (pure ()) := by
  have htop (y : String) (hy : y = x ∨ y = result) : (V.withTop fun y => y = x ∨ y = result).top y := by
    rwa [View.top_withTop]
  refine Alike.ofGathered fun Q total hle htotal => ?_
  rw [Block.exec_add]
  simp only [Expr.eval, bind_assoc]
  refine Assumption.saveLeft ?_
  refine Assumption.setLeft hx (htop x (.inl rfl)) hne item ?_
  refine Assumption.wasteLeft 1 (Assumption.wasteLeft 1 (Assumption.getLeft (fun _ _ _ h => h.1) ?_))
  refine Assumption.wasteLeft 1 (Assumption.getLeft (fun _ _ _ h => h.2) ?_)
  rw [htotal.augment_eq, bind_assoc]
  refine Alike.addLeft hfaithful htotal (hitem.mono hle) fun total' htotal' => ?_
  refine Alike.weaken (Assumption.rebindLeft hname (htop result (.inr rfl)) ?_) fun s s' h => ⟨h.1, h.2.1⟩
  exact .pure fun s s' hwithin => ⟨rfl, Q, total', hle, htotal', hwithin⟩

theorem toNat_cost_le (n : Nat) : (cost n).toNat ≤ 1 + n / 4 := by
  rw [toNat_cost]
  exact Nat.add_le_add_left (Nat.div_le_div_right (Nat.min_le_left ..)) 1

/-- A variable is given the sum of some values, which is paid for. -/
def addUp (budget : Budget) (result : String) (items : Array Value) : Exec Flow := do
  charge budget (cost items.size)
  let total ← addAll (.int 0) items.toList
  setVar result total
  return .next

/-- In the end, the second run adds up what it has found, and pays for it with what it has saved. -/
theorem Alike.endTotalling (hname : S.names result) (hV : ∀ y, V.top y ↔ y = x) (flow : Flow) (items : Array Value) :
    Alike S (fun s s' => flow = .next ∧ ∃ found, items.toList = List.reverse found ∧
        Gathered S (V.withTop fun y => y = x ∨ y = result) P Totalling result (c + 1) found s s')
      (fun flow flow' s s' => ∃ Q, P ≤ Q ∧ Flow.Agree S.labels Q flow flow' ∧ s.Agree S V Q c s')
      (pure flow) (addUp S.budget' result items) := by
  rintro s s' ⟨rfl, found, hitems, Q, _, hle, ⟨n, rfl, htotal⟩, hwithin⟩
  have hcost := toNat_cost_le found.length
  have hpaid := Assumption.payRight (c := c + 1 + found.length) (cost found.length) (by omega)
    (Assumption.spare (c := c) (by omega) (Alike.settleRight hname hV hle n.agree_toValue))
  unfold addUp
  rw [hitems, htotal, pure_bind, ← Array.length_toList, hitems, List.length_reverse]
  exact hpaid s s' hwithin

/-- What the sum of an argument does, if its name is that of the built-in function. -/
theorem Block.exec_sum (env : Env) (l k a b : Label) (x : String) (argument : Expr Label) :
    Block.exec env [.assign l (.name k x) (.call a (.name b "sum") [argument])] = (do
      charge env.budget 1
      charge env.budget 1
      charge env.budget 1
      let f ← getVar "sum"
      let v ← argument.eval env
      let total ← callValue env f [v]
      setVar x total
      return .next) := by
  rw [Block.exec_assign, Expr.eval_call _ _ _ rfl]
  simp only [Expr.eval, Expr.evalAll, bind_assoc, pure_bind]

theorem callValue_sum (env : Env) (v : Value) : callValue env (.builtin .sum) [v] = (do
    let items ← iterate v
    charge env.budget (cost items.size)
    addAll (.int 0) items.toList) := rfl

/-- A variable that holds zero and then comes to hold a total, and a sum. -/
theorem Block.sim_sum {l l' k k' a b : Label} {init argument : Expr Label} {s : Stmt Label}
    {call call' : Label → List Value → Exec Value} (hextra : S.extra = 3) (hsum : ¬ S.names "sum")
    (hname : S.names result) (hV : ∀ y, V.top y ↔ y = x) (hstart : init.intValue? = some 0)
    (h : Alike S (Gathered S (V.withTop fun y => y = x ∨ y = result) P Totalling result (c + 1) [])
      (fun flow flow' s s' => ∃ Q, P ≤ Q ∧ Flow.Agree S.labels Q flow flow' ∧ s.Agree S V Q c s')
      (s.exec ⟨S.budget, call⟩)
      (do addUp S.budget' result (← iterate (← argument.eval ⟨S.budget', call'⟩)))) :
    Sim S V P c c (Flow.Agree S.labels) (Block.exec ⟨S.budget, call⟩ [.assign l (.name k result) init, s])
      (Block.exec ⟨S.budget', call'⟩ [.assign l' (.name k' result) (.call a (.name b "sum") [argument])]) := by
  rw [Block.exec_initialized, Block.exec_sum]
  refine (Step.earn 1).bind fun _ _ _ => ?_
  rw [hextra]
  refine .chargeRight 1 (by omega) (.chargeRight 1 (by omega) ?_)
  refine Alike.builtinRight hsum rfl ?_
  simp only [callValue_sum, bind_assoc]
  simp only [addUp] at h
  refine Sim.intValue hstart ?_
  refine Assumption.bindLeft (fun y => y = x ∨ y = result) hname (.inr rfl) (fun y hy => .inl ((hV y).mp hy)) ?_
  exact h.weaken fun s s' hwithin => ⟨P, .int 0, le_rfl, .zero, hwithin⟩

/-- A loop that adds up elements, and the sum of a generator. -/
theorem Block.sim_sumLoop {l l' k k' a b m next : Label} {init source element : Expr Label}
    {s inner : Stmt Label} {cond : Option (Expr Label)} (hfaithful : ¬ S.faithful) (hextra : S.extra = 3)
    (hsum : ¬ S.names "sum") (hstart : init.intValue? = some 0)
    (hcalls : CallsAlike S (Exchange.ofLoop functions names owner x result part part').concealed
      (callFunction fs S.budget depth) (callFunction fs' S.budget' depth))
    (hV : V.Fits (.ofLoop functions names owner x result part part') owner)
    (hguarded : s.guarded? = some (inner, cond)) (hinner : ∃ d e, inner = .augAssign d (.name e result) .add element)
    (hsource : source.mentions x = false ∧ source.mentions result = false)
    (hcond : cond.any (Expr.mentions result) = false) (helement : element.mentions result = false) (hne : result ≠ x)
    (hname : S.names result)
    (hnames : ∀ node ∈ (Stmt.forLoop l' x source [s]).nodes, ∀ y ∈ node.boundNames, S.names y)
    (helementNames : ∀ part ∈ element.subterms, ∀ y ∈ (Node.expr part).boundNames, S.names y) (P : Pairing) (c : Nat) :
    Sim S V P c c (Flow.Agree S.labels)
      (Block.exec ⟨S.budget, callFunction fs S.budget depth⟩
        [.assign l (.name k result) init, .forLoop l' x source [s]])
      (Block.exec ⟨S.budget', callFunction fs' S.budget' depth⟩
        [.assign next (.name k' result) (.call a (.name b "sum")
          [.comprehension m .generator element x source cond])]) := by
  obtain ⟨d, e, rfl⟩ := hinner
  refine Block.sim_sum hextra hsum hname hV.top_ofLoop hstart ?_
  simp only [Stmt.exec, Expr.eval_comprehension, runComprehension, bind_assoc]
  have hgather := Alike.gatherLoop (P := P) (c := c + 1) hguarded hcalls hV hsource hcond hne hnames Totalling.mono
    fun P' _ _ => Alike.gatherAdd d e hfaithful hname hcalls hV helement helementNames
  have hboth := hgather.bind fun flow vs => by
    refine Alike.iterateNewRight ?_ (Alike.endTotalling hname hV.top_ofLoop flow vs.toArray)
    rintro t t' ⟨hflow, found, hvs, ht⟩
    exact ⟨hflow, found, hvs, ht.pushRight vs.toArray⟩
  simp only [bind_assoc, bind_pure] at hboth
  refine Alike.ofGathered fun Q v hle hv => Assumption.charge 1 ?_
  exact hboth.weaken fun t t' ht => ⟨Q, v, hle, hv, ht⟩

/-- A loop that adds up what it runs over, and the sum of that. -/
theorem Block.sim_sumOver {l l' k k' a b d e g next : Label} {init source : Expr Label}
    (hfaithful : ¬ S.faithful) (hextra : S.extra = 3) (hsum : ¬ S.names "sum") (hstart : init.intValue? = some 0)
    (hcalls : CallsAlike S (Exchange.ofLoop functions names owner x result part part').concealed
      (callFunction fs S.budget depth) (callFunction fs' S.budget' depth))
    (hV : V.Fits (.ofLoop functions names owner x result part part') owner)
    (hsource : source.mentions x = false ∧ source.mentions result = false) (hne : result ≠ x)
    (hname : S.names result) (hx : S.names x)
    (hnames : ∀ part ∈ source.subterms, ∀ y ∈ (Node.expr part).boundNames, S.names y) (P : Pairing) (c : Nat) :
    Sim S V P c c (Flow.Agree S.labels)
      (Block.exec ⟨S.budget, callFunction fs S.budget depth⟩
        [.assign l (.name k result) init, .forLoop l' x source [.augAssign d (.name e result) .add (.name g x)]])
      (Block.exec ⟨S.budget', callFunction fs' S.budget' depth⟩
        [.assign next (.name k' result) (.call a (.name b "sum") [source])]) := by
  refine Block.sim_sum hextra hsum hname hV.top_ofLoop hstart ?_
  simp only [Stmt.exec]
  refine Alike.ofGathered fun Q v hle hv => Assumption.wasteLeft 1 ?_
  refine Alike.weaken (Alike.gatherFrom hcalls hV hsource hnames Totalling.mono ?_) fun t t' ht => ⟨Q, v, hle, hv, ht⟩
  intro P' items items' hle' hkept hitems
  have hrounds := Alike.forRounds_left (fun found item item' hitem => Alike.roundAdd (V := V) (c := c + 1) d e g
    (callFunction fs S.budget depth) hfaithful hname hx hne hitem found) hitems []
  have hboth := Alike.left hrounds fun flow => by
    refine Alike.weaken (Alike.endTotalling hname hV.top_ofLoop flow items') fun t t' ht => ⟨ht.1, _, ?_, ht.2⟩
    rw [List.append_nil, List.reverse_reverse]
  rw [bind_pure] at hboth
  refine hboth.imp fun flow flow' t t' ht => ?_
  obtain ⟨R, hR, hends⟩ := ht
  exact ⟨R, le_trans hle' hR, hends⟩

end

/-! ### The loop replaced -/

namespace Tree

/-- A loop that adds up is a simple loop. -/
theorem simpleLoop?_of_accumulation? {t : Tree} {label : Label} {loop : SimpleLoop} {start : Int64}
    {element : Expr Label} (h : t.accumulation? label = some (loop, start, element)) :
    t.simpleLoop? label = some loop := by
  obtain ⟨loop', hloop, h⟩ := Option.bind_eq_some_iff.mp h
  obtain ⟨start', -, h⟩ := Option.bind_eq_some_iff.mp h
  split at h
  · rw [Option.ite_none_right_eq_some] at h
    cases h.2
    exact hloop
  · cases h

/-- With a loop that adds up from zero replaced by a sum, a program that completes does so with the same result and
the same output, if nothing else sees the variables of the loop while it runs.  In the module, the variable of the
loop is a name that can no longer be called. -/
theorem accumulationToSum_keptBy {t : Tree} (h : t.WellFormed) {label : Label}
    (hsite : label ∈ Rule.accumulationToSum.sites t) {loop : SimpleLoop} (hloop : t.simpleLoop? label = some loop)
    (hstart : loop.init.intValue? = some 0) (hisolated : loop.IsIsolated t label) :
    ∃ t', Rule.accumulationToSum.apply t label = .ok t' ∧
      (Program.ofTree t).KeptBy (fun name => t.isInFunction label = true ∨ name ≠ loop.var) (Program.ofTree t') := by
  obtain ⟨⟨loop', start, element⟩, hfound⟩ := Option.isSome_iff_exists.mp (List.mem_filter.mp hsite).2
  obtain rfl : loop' = loop := Option.some.inj ((simpleLoop?_of_accumulation? hfound).symm.trans hloop)
  obtain ⟨hmatches, hzero, ⟨d, target, hinner, htarget⟩, helement, hsum⟩ := accumulation?_eq_some hfound
  obtain rfl : start = 0 := Option.some.inj (hzero.symm.trans hstart)
  obtain ⟨e, rfl⟩ := Expr.isName_iff.mp htarget
  obtain ⟨k, htarget⟩ := hmatches.target
  obtain ⟨l', s, hstmt, hguarded⟩ := hmatches.stmt
  have hnodes (S : Setting) (hbound : ∀ y, S.names y ↔ y ∈ Block.boundNames t.body) : ∀ node ∈
      (Stmt.forLoop l' loop'.var loop'.source [s]).nodes, ∀ y ∈ node.boundNames, S.names y := fun node hnode y hy =>
    (hbound y).mpr (hmatches.mem_boundNames_of_stmt (hstmt ▸ hnode) hy)
  have hresult : Rule.accumulationToSum.result? t label = some (t.replaceLoop loop' (loop'.total 0 element t.next).1
      (loop'.total 0 element t.next).2) := by
    rw [Rule.result?, Tree.accumulationToSum?_eq, hfound]
    rfl
  refine ⟨_, by rw [Rule.apply, hresult], ?_⟩
  refine hmatches.keptBy_replaceLoop h.hasLabels hisolated _ _ 3 ?_
  intro S V functions names owner part part' fs' depth l hbound hextra hfaithful hcalls hV P c
  have hsum' : ¬ S.names "sum" := fun hname => hsum ((hbound _).mp hname)
  rw [htarget, hstmt]
  simp only [SimpleLoop.total, if_pos]
  split
  · rename_i hdirect
    obtain ⟨hnone, hvar⟩ := Bool.and_eq_true_iff.mp hdirect
    obtain ⟨g, rfl⟩ := Expr.isName_iff.mp hvar
    obtain ⟨rfl, -⟩ | ⟨_, test, -, hsome⟩ := Stmt.guarded?_eq_some hguarded
    · rw [hinner] at hnodes ⊢
      have hloopNodes := hnodes S hbound
      simp only [Stmt.nodes, List.forall_mem_cons, List.forall_mem_append, Expr.forall_mem_nodes] at hloopNodes
      exact Block.sim_sumOver hfaithful hextra hsum' hstart hcalls hV ⟨hisolated.source, hmatches.source⟩
        hmatches.name_ne ((hbound _).mpr hmatches.mem_boundNames) (hloopNodes.1 _ (List.mem_singleton_self _))
        hloopNodes.2.1 P c
    · rw [hsome] at hnone
      cases hnone
  · refine Block.sim_sumLoop hfaithful hextra hsum' hstart hcalls hV hguarded ⟨d, e, hinner⟩
      ⟨hisolated.source, hmatches.source⟩ hmatches.cond helement hmatches.name_ne
      ((hbound _).mpr hmatches.mem_boundNames) (hnodes S hbound)
      (fun part hpart y hy => (hbound y).mpr (hmatches.mem_boundNames_of_inner ?_ hy)) P c
    rw [hinner]
    exact .tail _ (List.mem_append_right _ (List.mem_map_of_mem hpart))

/-- A program that adds up in a function, under a condition, and calls another function meanwhile. -/
def squares : Tree := .ofBlock 0
  [.functionDef () "square" ["y"] [.ret () (some (.binary () .mul (.name () "y") (.name () "y")))],
    .functionDef () "f" ["xs"]
      [.assign () (.name () "total") (.constant () (.int 0)),
        .forLoop () "x" (.name () "xs")
          [.ifElse () (.compare () .gt (.name () "x") (.constant () (.int 0)))
            [.augAssign () (.name () "total") .add (.call () (.name () "square") [.name () "x"])]
            []],
        .ret () (some (.name () "total"))]]

theorem accumulationToSum_keptBy_squares : ∃ label loop t', label ∈ Rule.accumulationToSum.sites squares ∧
    squares.simpleLoop? label = some loop ∧ loop.init.intValue? = some 0 ∧ loop.IsIsolated squares label ∧
      Rule.accumulationToSum.apply squares label = .ok t' ∧
        (Program.ofTree squares).KeptBy (fun name => squares.isInFunction label = true ∨ name ≠ loop.var)
          (Program.ofTree t') := by
  have hwellFormed : squares.WellFormed := Tree.ofBlock_wellFormed (by decide)
  have hsite : 18 ∈ Rule.accumulationToSum.sites squares := by decide
  obtain ⟨loop, hloop⟩ : ∃ loop, squares.simpleLoop? 18 = some loop :=
    Option.isSome_iff_exists.mp (by decide)
  have hstart : loop.init.intValue? = some 0 := by
    cases hloop
    rfl
  have hisolated : loop.IsIsolated squares 18 := by
    refine ⟨?_, .inl (by decide)⟩
    cases hloop
    rfl
  obtain ⟨t', hresult, hkept⟩ := accumulationToSum_keptBy hwellFormed hsite hloop hstart hisolated
  exact ⟨18, loop, t', hsite, hloop, hstart, hisolated, hresult, hkept⟩

/-- A program with a function that reads a total while it is being added up. -/
def readsSubtotal : Tree := .ofBlock 0
  [.functionDef () "g" ["y"] [.ret () (some (.binary () .add (.name () "t") (.name () "y")))],
    .assign () (.name () "t") (.constant () (.int 0)),
    .forLoop () "x" (.list () [.constant () (.int 1), .constant () (.int 2)])
      [.augAssign () (.name () "t") .add (.call () (.name () "g") [.name () "x"])],
    .functionDef () "f" ["a"] [.ret () (some (.name () "t"))]]

/-- The same program with a sum. -/
def readsNoTotal : Tree := (Rule.accumulationToSum.result? readsSubtotal 16).getD readsSubtotal

/-- A function that the element calls may read the total so far, which the sum does not have yet. -/
theorem not_accumulationToSum_keptBy : ¬ ∀ (t : Tree), t.WellFormed →
    ∀ label ∈ Rule.accumulationToSum.sites t, ∀ t', Rule.accumulationToSum.apply t label = .ok t' →
      (Program.ofTree t).KeptBy (fun _ => True) (Program.ofTree t') := by
  intro hkept
  have hwellFormed : readsSubtotal.WellFormed := Tree.ofBlock_wellFormed (by decide)
  have hsite : 16 ∈ Rule.accumulationToSum.sites readsSubtotal := by decide
  let run (t : Tree) (fuel : UInt64) := ((Program.ofTree t).perform { fuel } "f" [.int 0]).run {}
  have hruns : (Program.answer (run readsSubtotal 1000)).isOk = true ∧
      (Program.answer (run readsNoTotal 0xFFFFFFFFFFFFFFFF)).toOption.map Datum.text ≠
        (Program.answer (run readsSubtotal 1000)).toOption.map Datum.text := by
    decide +kernel
  have hboth := hkept readsSubtotal hwellFormed 16 hsite readsNoTotal rfl
  exact Program.not_keptBy trivial [.int 0] hruns.1 hruns.2 hboth

end Tree

end ProgramBreeding

import ProgramBreeding.Proofs.Rule.GatheringLoop

/-!
# Loops that append

A loop that appends to an empty list, and the comprehension that takes its place.  While the loop runs, its list is
one that only the first run has, and once the comprehension has made its own list the two are partners.

## Main definitions

* `Building` — the list so far.
* `Block.sim_appendLoop` — the loop beside the comprehension.
* `Tree.appendToComprehension_keptBy` — programs that complete are kept.
-/

namespace ProgramBreeding

variable {S : Setting} {V : View} {P Q : Pairing} {c : Nat}

/-! ### The list that is built up -/

/-- The list that a loop builds up holds what the comprehension has found so far, the last one first. -/
def Building (L : Labelling) (ρ : Ref) (found : List Value) (P : Pairing) (v : Value) : Prop :=
  v = .list ρ ∧ ∃ items, P.kept ρ = some items ∧ Values.Agree L P items.toList found.reverse

theorem Building.mono {L : Labelling} {ρ : Ref} (found : List Value) (P Q : Pairing) (v : Value) (hle : P ≤ Q)
    (h : Building L ρ found P v) : Building L ρ found Q v := by
  obtain ⟨rfl, items, hkept, hitems⟩ := h
  exact ⟨rfl, items, hle.2 _ _ hkept, hitems.mono hle⟩

/-- What appending to a variable does. -/
theorem Block.exec_append_call (env : Env) (l l' l'' k : Label) (x : String) (element : Expr Label) :
    Block.exec env [.expr l (.call l' (.attribute l'' (.name k x) "append") [element])] = (do
      charge env.budget 1
      charge env.budget 1
      charge env.budget 1
      let list ← getVar x
      let v ← element.eval env
      let _ ← callMethod env.budget list "append" [v]
      return .next) := by
  have hdiscard (m : Exec Value) : discard m = (do let _ ← m; return ()) := rfl
  rw [Block.exec_singleton]
  simp only [Stmt.exec, Expr.eval, Expr.evalAll, hdiscard, bind_assoc, pure_bind]

/-- The first run appends to a list that the second does without. -/
theorem Alike.appendLeft {α β : Type} {post : α → β → State → State → Prop} {n : Exec α} {n' : Exec β}
    {result : String} {u v : Value} {ρ : Ref} {items : Array Value} (hfaithful : ¬ S.faithful)
    (hkept : P.kept ρ = some items)
    (h : Alike S ((Assumption.bound result u).Within S V (P.keep ρ (items.push v)) c) post n n') :
    Alike S ((Assumption.bound result u).Within S V P c) post
      (do let _ ← callMethod S.budget (.list ρ) "append" [v]; n) n' := by
  have happend : callMethod S.budget (.list ρ) "append" [v] = (do
      let items ← itemsOf ρ
      charge S.budget 1
      if maxSequence ≤ items.size then raise .listTooLarge
      updateList ρ fun items => items.push v
      return .none) := rfl
  rw [happend]
  simp only [bind_assoc]
  refine Assumption.itemsLeft hkept (Assumption.wasteLeft 1 ?_)
  split
  · exact Alike.raiseLeft _ _ hfaithful
  · exact Assumption.updateLeft hkept h

section

variable {fs fs' : List (Label × FunctionDef)} {depth : Nat} {functions : List Label} {names : String → Prop}
  {owner : Option Label} {x result : String} {part part' : Block Label} {ρ : Ref} {element : Expr Label}

/-- Appending gathers. -/
theorem Alike.gatherAppend (l l' l'' k : Label) (hfaithful : ¬ S.faithful)
    (hcalls : CallsAlike S (Exchange.ofLoop functions names owner x result part part').concealed
      (callFunction fs S.budget depth) (callFunction fs' S.budget' depth))
    (hV : V.Fits (.ofLoop functions names owner x result part part') owner)
    (helement : element.mentions result = false)
    (hnames : ∀ part ∈ element.subterms, ∀ y ∈ (Node.expr part).boundNames, S.names y)
    (hfree : P.kept ρ = none) (found : List Value) :
    Alike S (Gathered S (V.withTop (· = result)) P (Building S.labels ρ) result c found)
      (fun flow v s s' => flow = .next ∧
        Gathered S (V.withTop (· = result)) P (Building S.labels ρ) result c (v :: found) s s')
      (Block.exec ⟨S.budget, callFunction fs S.budget depth⟩
        [.expr l (.call l' (.attribute l'' (.name k result) "append") [element])])
      (element.eval ⟨S.budget', callFunction fs' S.budget' depth⟩) := by
  refine Alike.ofGathered ?_
  rintro Q _ hle ⟨rfl, items, hkept, hitems⟩
  rw [Block.exec_append_call, ← bind_pure (element.eval ⟨S.budget', _⟩)]
  -- One of the units is saved for the comprehension.
  refine Assumption.saveLeft ?_
  refine Assumption.wasteLeft 1 (Assumption.wasteLeft 1 (Assumption.getLeft (fun _ _ _ => id) ?_))
  refine (element.simUnder_ofLoop hcalls hV helement hnames _ Q _).andThen fun R hle' v v' hv => ?_
  refine Alike.appendLeft hfaithful (hle'.2 _ _ hkept) (.pure fun s s' hwithin => ⟨rfl, ?_⟩)
  refine ⟨_, .list ρ, Pairing.le_keep (le_trans hle hle') hfree, ⟨rfl, _, Pairing.keep_self, ?_⟩, hwithin⟩
  rw [Array.toList_push, List.reverse_cons]
  exact Values.Agree.grow Pairing.rel_keep ((hitems.mono hle').append (.cons hv .nil))

/-- In the end, the second run has a list that holds the same. -/
theorem Alike.endBuilding (hname : S.names result) (hV : ∀ y, V.top y ↔ y = x) (hfree : P.kept ρ = none) (flow : Flow)
    (vs : List Value) :
    Alike S (fun s s' => flow = .next ∧ ∃ found, vs = List.reverse found ∧
        Gathered S (V.withTop fun y => y = x ∨ y = result) P (Building S.labels ρ) result c found s s')
      (fun flow flow' s s' => ∃ Q, P ≤ Q ∧ Flow.Agree S.labels Q flow flow' ∧ s.Agree S V Q c s')
      (pure flow)
      (do
        let v ← newList vs.toArray
        setVar result v
        return .next) := by
  rintro s s' ⟨rfl, found, rfl, Q, _, hle, ⟨rfl, items, hkept, hitems⟩, hagree, hbound⟩
  obtain ⟨hunpaired, hheap⟩ := hagree.heap.pushPartner hkept found.reverse.toArray (by simpa using hitems)
  have hagree' := (hagree.changeHeap Pairing.rel_pair hheap).mono (Nat.le_add_right c found.length)
  exact Alike.settleRight hname hV (Pairing.le_pair_of_le hle hfree hunpaired) (.list (.inr ⟨rfl, rfl⟩)) s
    { s' with heap := s'.heap.push found.reverse.toArray } ⟨hagree', hbound⟩

/-- A loop that appends to an empty list, and the list of a comprehension. -/
theorem Block.sim_appendLoop {l l' k k' m next : Label} {s inner : Stmt Label} {source : Expr Label}
    {cond : Option (Expr Label)} (hfaithful : ¬ S.faithful)
    (hcalls : CallsAlike S (Exchange.ofLoop functions names owner x result part part').concealed
      (callFunction fs S.budget depth) (callFunction fs' S.budget' depth))
    (hV : V.Fits (.ofLoop functions names owner x result part part') owner)
    (hguarded : s.guarded? = some (inner, cond))
    (hinner : ∃ a b d e, inner = .expr a (.call b (.attribute d (.name e result) "append") [element]))
    (hsource : source.mentions x = false ∧ source.mentions result = false)
    (hcond : cond.any (Expr.mentions result) = false) (helement : element.mentions result = false) (hne : result ≠ x)
    (hname : S.names result)
    (hnames : ∀ node ∈ (Stmt.forLoop l' x source [s]).nodes, ∀ y ∈ node.boundNames, S.names y)
    (helementNames : ∀ part ∈ element.subterms, ∀ y ∈ (Node.expr part).boundNames, S.names y) (P : Pairing) (c : Nat) :
    Sim S V P c c (Flow.Agree S.labels)
      (Block.exec ⟨S.budget, callFunction fs S.budget depth⟩
        [.assign l (.name k result) (.list m []), .forLoop l' x source [s]])
      (Block.exec ⟨S.budget', callFunction fs' S.budget' depth⟩
        [.assign next (.name k result) (.comprehension k' .list element x source cond)]) := by
  obtain ⟨a, b, d, e, rfl⟩ := hinner
  rw [Block.exec_initialized, Block.exec_assign, Expr.eval_comprehension]
  simp only [Stmt.exec, Expr.eval, Expr.evalAll, runComprehension, bind_assoc, pure_bind]
  refine (Step.charge 1).bind fun _ _ _ => (Step.charge 1).bind fun _ _ _ => ?_
  refine Alike.newListLeft fun ρ Q hle hfree hkept => ?_
  refine Assumption.bindLeft (fun y => y = x ∨ y = result) hname (.inr rfl) (fun y hy => ?_) ?_
  · exact .inl ((hV.top_ofLoop y).mp hy)
  refine Assumption.wasteLeft 1 ?_
  have hgather := Alike.gatherLoop (P := P) (c := c) hguarded hcalls hV hsource hcond hne hnames Building.mono
    fun P' hle' hkept' => Alike.gatherAppend a b d e hfaithful hcalls hV helement helementNames (hkept' ▸ hfree)
  have hboth := hgather.bind fun flow vs => Alike.endBuilding hname hV.top_ofLoop hfree flow vs
  simp only [bind_assoc, bind_pure] at hboth
  exact hboth.weaken fun t t' ht => ⟨Q, .list ρ, hle, ⟨rfl, #[], hkept, .nil⟩, ht⟩

end

/-! ### The loop replaced -/

namespace Tree

/-- A loop that appends is a simple loop. -/
theorem simpleLoop?_of_appendLoop? {t : Tree} {label : Label} {loop : SimpleLoop} {element : Expr Label}
    (h : t.appendLoop? label = some (loop, element)) : t.simpleLoop? label = some loop := by
  obtain ⟨loop', hloop, h⟩ := Option.bind_eq_some_iff.mp h
  split at h
  · rw [Option.ite_none_right_eq_some] at h
    cases h.2
    exact hloop
  · cases h

/-- With a loop that appends replaced by a comprehension, a program that completes does so with the same result and
the same output, if nothing else sees the variables of the loop while it runs.  In the module, the variable of the
loop is a name that can no longer be called. -/
theorem appendToComprehension_keptBy {t : Tree} (h : t.WellFormed) {label : Label}
    (hsite : label ∈ Rule.appendToComprehension.sites t) {loop : SimpleLoop} (hloop : t.simpleLoop? label = some loop)
    (hisolated : loop.IsIsolated t label) : ∃ t', Rule.appendToComprehension.apply t label = .ok t' ∧
      (Program.ofTree t).KeptBy (fun name => t.isInFunction label = true ∨ name ≠ loop.var) (Program.ofTree t') := by
  obtain ⟨⟨loop', element⟩, happend⟩ := Option.isSome_iff_exists.mp (List.mem_filter.mp hsite).2
  obtain rfl : loop' = loop := Option.some.inj ((simpleLoop?_of_appendLoop? happend).symm.trans hloop)
  have hresult : t.appendToComprehension? label =
      some (t.replaceLoop loop' (.comprehension t.next .list element loop'.var loop'.source loop'.cond)
        (t.next + 1)) := by
    rw [appendToComprehension?, happend]
    rfl
  obtain ⟨hmatches, ⟨m, hinit⟩, ⟨a, b, d, receiver, hinner, hreceiver⟩, helement⟩ := appendLoop?_eq_some happend
  obtain ⟨e, rfl⟩ := Expr.isName_iff.mp hreceiver
  obtain ⟨k, htarget⟩ := hmatches.target
  obtain ⟨l', s, hstmt, hguarded⟩ := hmatches.stmt
  refine ⟨_, by rw [Rule.apply, Rule.result?, hresult], ?_⟩
  refine hmatches.keptBy_replaceLoop h.hasLabels hisolated _ _ 0 ?_
  intro S V functions names owner part part' fs' depth l hbound _ hfaithful hcalls hV P c
  rw [htarget, hinit, hstmt]
  refine Block.sim_appendLoop hfaithful hcalls hV hguarded ⟨a, b, d, e, hinner⟩ ⟨hisolated.source, hmatches.source⟩
    hmatches.cond helement hmatches.name_ne ((hbound _).mpr hmatches.mem_boundNames)
    (fun node hnode y hy => (hbound y).mpr (hmatches.mem_boundNames_of_stmt (hstmt ▸ hnode) hy))
    (fun part hpart y hy => (hbound y).mpr (hmatches.mem_boundNames_of_inner ?_ hy)) P c
  rw [hinner]
  refine .tail _ (List.mem_map_of_mem ?_)
  simp [Expr.subterms, Expr.subtermsAll, hpart]

/-- A program that appends in a function, under a condition, and calls another function meanwhile. -/
def doubles : Tree := .ofBlock 0
  [.functionDef () "double" ["y"] [.ret () (some (.binary () .mul (.name () "y") (.constant () (.int 2))))],
    .functionDef () "f" ["xs"]
      [.assign () (.name () "found") (.list () []),
        .forLoop () "x" (.name () "xs")
          [.ifElse () (.compare () .gt (.name () "x") (.constant () (.int 0)))
            [.expr () (.call () (.attribute () (.name () "found") "append")
              [.call () (.name () "double") [.name () "x"]])]
            []],
        .ret () (some (.name () "found"))]]

theorem appendToComprehension_keptBy_doubles : ∃ label loop t', label ∈ Rule.appendToComprehension.sites doubles ∧
    doubles.simpleLoop? label = some loop ∧ loop.IsIsolated doubles label ∧
      Rule.appendToComprehension.apply doubles label = .ok t' ∧
        (Program.ofTree doubles).KeptBy (fun name => doubles.isInFunction label = true ∨ name ≠ loop.var)
          (Program.ofTree t') := by
  have hwellFormed : doubles.WellFormed := Tree.ofBlock_wellFormed (by decide)
  have hsite : 20 ∈ Rule.appendToComprehension.sites doubles := by decide
  obtain ⟨loop, hloop⟩ : ∃ loop, doubles.simpleLoop? 20 = some loop :=
    Option.isSome_iff_exists.mp (by decide)
  have hisolated : loop.IsIsolated doubles 20 := by
    refine ⟨?_, .inl (by decide)⟩
    cases hloop
    rfl
  obtain ⟨t', hresult, hkept⟩ := appendToComprehension_keptBy hwellFormed hsite hloop hisolated
  exact ⟨20, loop, t', hsite, hloop, hisolated, hresult, hkept⟩

/-- A program with a function that reads a list while it is being built up. -/
def readsUnfinished : Tree := .ofBlock 0
  [.functionDef () "g" ["y"]
      [.ret () (some (.binary () .add (.call () (.name () "len") [.name () "r"]) (.name () "y")))],
    .assign () (.name () "r") (.list () []),
    .forLoop () "x" (.list () [.constant () (.int 1), .constant () (.int 2)])
      [.expr () (.call () (.attribute () (.name () "r") "append") [.call () (.name () "g") [.name () "x"]])],
    .functionDef () "f" ["a"] [.ret () (some (.name () "r"))]]

/-- The same program with a comprehension. -/
def readsUnbound : Tree := (Rule.appendToComprehension.result? readsUnfinished 20).getD readsUnfinished

/-- A function that the element calls may read the unfinished list, which the comprehension does not have yet. -/
theorem not_appendToComprehension_keptBy : ¬ ∀ (t : Tree), t.WellFormed →
    ∀ label ∈ Rule.appendToComprehension.sites t, ∀ t', Rule.appendToComprehension.apply t label = .ok t' →
      (Program.ofTree t).KeptBy (fun _ => True) (Program.ofTree t') := by
  intro hkept
  have hwellFormed : readsUnfinished.WellFormed := Tree.ofBlock_wellFormed (by decide)
  have hsite : 20 ∈ Rule.appendToComprehension.sites readsUnfinished := by decide
  let run (t : Tree) (fuel : UInt64) := ((Program.ofTree t).perform { fuel } "f" [.int 0]).run {}
  have hruns : (Program.answer (run readsUnfinished 1000)).isOk = true ∧
      (Program.answer (run readsUnbound 0xFFFFFFFFFFFFFFFF)).toOption.map Datum.text ≠
        (Program.answer (run readsUnfinished 1000)).toOption.map Datum.text := by
    decide +kernel
  have hboth := hkept readsUnfinished hwellFormed 20 hsite readsUnbound rfl
  exact Program.not_keptBy trivial [.int 0] hruns.1 hruns.2 hboth

end Tree

end ProgramBreeding

import ProgramBreeding.Proofs.Execution.Gathering
import ProgramBreeding.Proofs.Rule.SimpleLoop

/-!
# Loops that gather

What a loop that adds up and one that appends have in common: an assignment, and then rounds in which its
variable follows the elements of a comprehension.

## Main definitions

* `Block.exec_initialized`, `Block.exec_guarded` — what the statements of such a loop do.
* `View.Fits.isSound_withTop` — the variables of the loop may differ while it runs.
* `Expr.simUnder`, `Expr.simUnder_ofLoop` — an expression that reads none of them.
* `Alike.gatherLoop` — the loop beside the comprehension.
* `SimpleLoop.Matches.keptBy_replaceLoop` — what is left to show of a loop and the assignment that replaces it.

## Design notes

The second run evaluates what the loop runs over, the conditions and the elements as the first one does, so all
calls happen in the same order.  What differs meanwhile are the variable of the loop, which a comprehension takes
away again, and the result, which only the first run has.
-/

namespace ProgramBreeding

/-! ### Statements -/

/-- A variable is assigned to, and then comes a loop. -/
theorem Block.exec_initialized (env : Env) (l k : Label) (x : String) (init : Expr Label) (s : Stmt Label) :
    Block.exec env [.assign l (.name k x) init, s] = (do
      charge env.budget 1
      let v ← init.eval env
      setVar x v
      s.exec env) := by
  rw [Block.exec, Block.exec_singleton]
  simp only [Stmt.exec, store, bind_assoc, pure_bind]

theorem Block.exec_assign (env : Env) (l k : Label) (x : String) (value : Expr Label) :
    Block.exec env [.assign l (.name k x) value] = (do
      charge env.budget 1
      let v ← value.eval env
      setVar x v
      return .next) := by
  rw [Block.exec_singleton]
  rfl

/-- The only statement of a loop may stand under a condition. -/
theorem Block.exec_guarded (env : Env) {s inner : Stmt Label} {cond : Option (Expr Label)}
    (h : s.guarded? = some (inner, cond)) : Block.exec env [s] =
      guardedBy env.budget (cond.map fun test => test.eval env) (Block.exec env [inner]) := by
  obtain ⟨rfl, rfl⟩ | ⟨l, test, rfl, rfl⟩ := Stmt.guarded?_eq_some h
  · rfl
  · rw [Block.exec_singleton]
    rfl

/-! ### Expressions that see nothing of the loop -/

section

variable {S : Setting} {V : View} {fs fs' : List (Label × FunctionDef)} {depth : Nat} {concealed : String → Prop}

theorem View.Fits.isSound_withTop {functions : List Label} {names : String → Prop} {owner : Option Label}
    {x result : String} {part part' : Block Label}
    (hV : V.Fits (.ofLoop functions names owner x result part part') owner) (hidden : String → Prop)
    (h : ∀ y, hidden y → y = x ∨ y = result) :
    (V.withTop hidden).IsSound (Exchange.ofLoop functions names owner x result part part').concealed := by
  obtain ⟨globals, frames⟩ := V
  cases frames with
  | nil => exact ⟨fun y hy => ⟨hV.level.mp rfl, h y hy⟩, fun y hy => hy⟩
  | cons frame rest =>
    have hsome : owner ≠ none := fun howner => List.cons_ne_nil _ _ (hV.level.mpr howner)
    have hglobals (y : String) : ¬ globals y := fun hy => hsome (hV.globals y hy).1
    exact ⟨fun y hy => absurd hy (hglobals y), fun y hy => absurd hy (hglobals y)⟩

/-- Around the loop, only its variable may differ. -/
theorem View.Fits.top_ofLoop {functions : List Label} {names : String → Prop} {owner : Option Label}
    {x result : String} {part part' : Block Label}
    (hV : V.Fits (.ofLoop functions names owner x result part part') owner) (y : String) : V.top y ↔ y = x := by
  rw [hV.top]
  constructor
  · rintro (⟨-, rfl⟩ | ⟨hnone, hsome, -⟩)
    · rfl
    · exact absurd hnone hsome
  · rintro rfl
    exact .inl ⟨rfl, rfl⟩

/-- An expression that reads nothing that may differ does the same in both runs, and the variable of the first
holds what it held. -/
theorem Expr.simUnder
    (hcalls : CallsAlike S concealed (callFunction fs S.budget depth) (callFunction fs' S.budget' depth))
    (hV : V.IsSound concealed) {e : Expr Label} (hreads : ∀ y, V.top y → e.mentions y = false)
    (hnames : ∀ part ∈ e.subterms, ∀ y ∈ (Node.expr part).boundNames, S.names y) {result : String} {v : Value}
    (P : Pairing) (c : Nat) :
    SimUnder (.bound result v) S V P c c (Value.Agree S.labels) (e.eval ⟨S.budget, callFunction fs S.budget depth⟩)
      (e.eval ⟨S.budget', callFunction fs' S.budget' depth⟩) := by
  refine Sim.under (e.sim_self hcalls hV (fun part hpart => ⟨fun y hy hhidden => ?_, hnames part hpart⟩) P c)
    (Assumption.bound_survives fun s => ?_)
  · have hmentions := List.any_eq_false.mp (hreads y hhidden) part hpart
    exact hmentions hy
  · exact (Program.eval_sameBindings ⟨[], fs⟩ S.budget s).1 depth e

end

/-! ### The loop and the comprehension -/

/-- The same partners, while the lists without any hold what they held before. -/
def Pairing.before (Q P : Pairing) : Pairing := { Q with kept := P.kept }

theorem Pairing.rel_before {P Q : Pairing} (r r' : Ref) (h : Q.rel r r') : (Q.before P).rel r r' := h

theorem Pairing.le_before {P Q : Pairing} (h : P ≤ Q) : P ≤ Q.before P := ⟨h.1, fun _ _ => id⟩

theorem Pairing.before_le {P Q : Pairing} (h : P ≤ Q) : Q.before P ≤ Q := ⟨fun _ _ => id, h.2⟩

section

variable {S : Setting} {V : View} {P : Pairing} {c : Nat} {fs fs' : List (Label × FunctionDef)} {depth : Nat}
  {functions : List Label} {names : String → Prop} {owner : Option Label} {x result : String}
  {part part' : Block Label} {holds : List Value → Pairing → Value → Prop}

/-- What a loop runs over is the same in both runs. -/
theorem Alike.gatherFrom {α β : Type} {post : α → β → State → State → Prop} {f : Array Value → Exec α}
    {f' : Array Value → Exec β} {source : Expr Label}
    (hcalls : CallsAlike S (Exchange.ofLoop functions names owner x result part part').concealed
      (callFunction fs S.budget depth) (callFunction fs' S.budget' depth))
    (hV : V.Fits (.ofLoop functions names owner x result part part') owner)
    (hsource : source.mentions x = false ∧ source.mentions result = false)
    (hnames : ∀ part ∈ source.subterms, ∀ y ∈ (Node.expr part).boundNames, S.names y)
    (hmono : ∀ found P Q v, P ≤ Q → holds found P v → holds found Q v)
    (h : ∀ P' items items', P ≤ P' → P'.kept = P.kept → Values.Agree S.labels P' items.toList items'.toList →
      Alike S (Gathered S (V.withTop fun y => y = x ∨ y = result) P' holds result c []) post (f items) (f' items')) :
    Alike S (Gathered S (V.withTop fun y => y = x ∨ y = result) P holds result c []) post
      (do f (← iterate (← source.eval ⟨S.budget, callFunction fs S.budget depth⟩)))
      (do f' (← iterate (← source.eval ⟨S.budget', callFunction fs' S.budget' depth⟩))) := by
  have hsound := hV.isSound_withTop (fun y => y = x ∨ y = result) fun y => id
  have hreads (y : String) (hy : (V.withTop fun y => y = x ∨ y = result).top y) : source.mentions y = false := by
    rw [View.top_withTop] at hy
    rcases hy with rfl | rfl
    · exact hsource.1
    · exact hsource.2
  refine Alike.ofGathered fun Q v hle hv => ?_
  refine (Expr.simUnder hcalls hsound hreads hnames Q _).andThen fun R hle' w w' hw => ?_
  refine (Step.iterate hw).under ((Assumption.bound result v).survives_of_inspects (.iterate w) (.iterate w')) ?_
  intro items items' hitems
  have hP := le_trans hle hle'
  have hfrom := h (R.before P) items items' (Pairing.le_before hP) rfl (hitems.grow Pairing.rel_before)
  refine hfrom.weaken fun t t' ht => ?_
  exact ⟨R, v, Pairing.before_le hP, hmono _ _ _ _ hle' hv, ht⟩

/-- An expression that does not depend on what is gathered does the same in both runs. -/
theorem Expr.simUnder_ofLoop (e : Expr Label)
    (hcalls : CallsAlike S (Exchange.ofLoop functions names owner x result part part').concealed
      (callFunction fs S.budget depth) (callFunction fs' S.budget' depth))
    (hV : V.Fits (.ofLoop functions names owner x result part part') owner) (hmentions : e.mentions result = false)
    (hnames : ∀ part ∈ e.subterms, ∀ y ∈ (Node.expr part).boundNames, S.names y) (v : Value) (P : Pairing) (c : Nat) :
    SimUnder (.bound result v) S (V.withTop (· = result)) P c c (Value.Agree S.labels)
      (e.eval ⟨S.budget, callFunction fs S.budget depth⟩) (e.eval ⟨S.budget', callFunction fs' S.budget' depth⟩) := by
  refine Expr.simUnder hcalls (hV.isSound_withTop _ fun y => .inr) (fun y hy => ?_) hnames P c
  rw [View.top_withTop] at hy
  exact hy ▸ hmentions

/-- Nor does the condition of the loop, if there is one. -/
theorem Stmt.simUnder_cond {s inner : Stmt Label} {cond : Option (Expr Label)}
    (hguarded : s.guarded? = some (inner, cond))
    (hcalls : CallsAlike S (Exchange.ofLoop functions names owner x result part part').concealed
      (callFunction fs S.budget depth) (callFunction fs' S.budget' depth))
    (hV : V.Fits (.ofLoop functions names owner x result part part') owner)
    (hcond : cond.any (Expr.mentions result) = false)
    (hnames : ∀ node ∈ s.nodes, ∀ y ∈ node.boundNames, S.names y) (v : Value) :
    Option.Rel (fun test test' => ∀ P c, SimUnder (.bound result v) S (V.withTop (· = result)) P c c
        (Value.Agree S.labels) test test')
      (cond.map fun test => test.eval ⟨S.budget, callFunction fs S.budget depth⟩)
      (cond.map fun test => test.eval ⟨S.budget', callFunction fs' S.budget' depth⟩) := by
  obtain ⟨-, rfl⟩ | ⟨l, test, rfl, rfl⟩ := Stmt.guarded?_eq_some hguarded
  · exact .none
  · refine .some (test.simUnder_ofLoop hcalls hV hcond (fun part hpart => hnames _ ?_) v)
    rw [Stmt.nodes]
    exact .tail _ (List.mem_append_left _ (List.mem_append_left _ (List.mem_map_of_mem hpart)))

/-- A loop under the condition of a comprehension, whose body gathers the elements. -/
theorem Alike.gatherLoop {l : Label} {s inner : Stmt Label} {source : Expr Label} {cond : Option (Expr Label)}
    {element' : Exec Value} (hguarded : s.guarded? = some (inner, cond))
    (hcalls : CallsAlike S (Exchange.ofLoop functions names owner x result part part').concealed
      (callFunction fs S.budget depth) (callFunction fs' S.budget' depth))
    (hV : V.Fits (.ofLoop functions names owner x result part part') owner)
    (hsource : source.mentions x = false ∧ source.mentions result = false)
    (hcond : cond.any (Expr.mentions result) = false) (hne : result ≠ x)
    (hnames : ∀ node ∈ (Stmt.forLoop l x source [s]).nodes, ∀ y ∈ node.boundNames, S.names y)
    (hmono : ∀ found P Q v, P ≤ Q → holds found P v → holds found Q v)
    (hinner : ∀ P', P ≤ P' → P'.kept = P.kept → ∀ found,
      Alike S (Gathered S (V.withTop (· = result)) P' holds result c found)
        (fun flow v s s' => flow = .next ∧ Gathered S (V.withTop (· = result)) P' holds result c (v :: found) s s')
        (Block.exec ⟨S.budget, callFunction fs S.budget depth⟩ [inner]) element') :
    Alike S (Gathered S (V.withTop fun y => y = x ∨ y = result) P holds result c [])
      (fun flow vs s s' => flow = .next ∧ ∃ found, vs = List.reverse found ∧
        Gathered S (V.withTop fun y => y = x ∨ y = result) P holds result c found s s')
      (do
        let items ← iterate (← source.eval ⟨S.budget, callFunction fs S.budget depth⟩)
        forRounds S.budget x (Block.exec ⟨S.budget, callFunction fs S.budget depth⟩ [s]) items.toList)
      (do
        let items ← iterate (← source.eval ⟨S.budget', callFunction fs' S.budget' depth⟩)
        shielding x (collect S.budget' x
          (cond.map fun test => test.eval ⟨S.budget', callFunction fs' S.budget' depth⟩) element' []
            items.toList)) := by
  simp only [Stmt.nodes, Block.nodes, List.append_nil, List.forall_mem_cons, List.forall_mem_append,
    Expr.forall_mem_nodes] at hnames
  obtain ⟨hbound, hsourceNames, hbody⟩ := hnames
  refine Alike.gatherFrom hcalls hV hsource hsourceNames hmono fun P' items items' hle hkept hitems => ?_
  rw [Block.exec_guarded _ hguarded]
  have hconds (v : Value) := Stmt.simUnder_cond hguarded hcalls hV hcond hbody v
  refine (Alike.gather (hbound x (List.mem_singleton_self x)) hne hconds hmono (hinner P' hle hkept) hitems).imp ?_
  rintro flow vs s s' ⟨rfl, found, rfl, Q, v, hPQ, h⟩
  exact ⟨rfl, found, rfl, Q, v, le_trans hle hPQ, h⟩

end

namespace SimpleLoop.Matches

variable {t : Tree} {label : Label} {loop : SimpleLoop} {y : String}

/-- The program gives the variable of the result a value. -/
theorem mem_boundNames (hloop : loop.Matches t label) : loop.name ∈ Block.boundNames t.body := by
  obtain ⟨l, hassign⟩ := hloop.mem_assignment
  obtain ⟨k, htarget⟩ := hloop.target
  refine List.mem_flatMap.mpr ⟨_, hassign _ (List.mem_cons_self ..), ?_⟩
  rw [htarget]
  exact List.mem_singleton_self _

/-- What the loop gives a value, the program does. -/
theorem mem_boundNames_of_stmt (hloop : loop.Matches t label) {node : Node Label}
    (hnode : node ∈ loop.focus.stmt.nodes) (hy : y ∈ node.boundNames) : y ∈ Block.boundNames t.body :=
  List.mem_flatMap.mpr ⟨node, hloop.mem_stmt hnode, hy⟩

theorem mem_boundNames_of_inner (hloop : loop.Matches t label) {node : Node Label}
    (hnode : node ∈ loop.inner.nodes) (hy : y ∈ node.boundNames) : y ∈ Block.boundNames t.body :=
  List.mem_flatMap.mpr ⟨node, hloop.mem_inner hnode, hy⟩

end SimpleLoop.Matches

/-- A program is kept by the one in which a loop has given way to an assignment that does the same. -/
theorem SimpleLoop.Matches.keptBy_replaceLoop {t : Tree} {label : Label} {loop : SimpleLoop}
    (hloop : loop.Matches t label) (h : t.HasLabels) (hisolated : loop.IsIsolated t label) (value : Expr Label)
    (next : Label) (extra : Nat)
    (hsim : ∀ (S : Setting) (V : View) (functions : List Label) (names : String → Prop) (owner : Option Label)
      (part part' : Block Label) (fs' : List (Label × FunctionDef)) (depth : Nat) (l : Label),
      (∀ y, S.names y ↔ y ∈ Block.boundNames t.body) → S.extra = extra → ¬ S.faithful →
          CallsAlike S (Exchange.ofLoop functions names owner loop.var loop.name part part').concealed
            (callFunction (Block.functions t.body) S.budget depth) (callFunction fs' S.budget' depth) →
          V.Fits (.ofLoop functions names owner loop.var loop.name part part') owner → ∀ P c,
            Sim S V P c c (Flow.Agree S.labels)
              (Block.exec ⟨S.budget, callFunction (Block.functions t.body) S.budget depth⟩
                [.assign l loop.target loop.init, loop.focus.stmt])
              (Block.exec ⟨S.budget', callFunction fs' S.budget' depth⟩ [.assign next loop.target value])) :
    (Program.ofTree t).KeptBy (fun name => t.isInFunction label = true ∨ name ≠ loop.var)
      (Program.ofTree (t.replaceLoop loop value next)) := by
  obtain ⟨owner, l, howner, hprograms⟩ := hloop.matches_replaceLoop h hisolated value next
  refine (hprograms.keptBy extra fun S hsuits hnames hextra hfaithful depth hcalls => ?_).mono fun name hname => ?_
  · refine ⟨hsuits, hcalls, False.elim, ?_, False.elim⟩
    rintro _ _ _ V ⟨rfl, rfl, rfl⟩ hV P c
    exact hsim S V _ _ _ _ _ _ depth l (fun y => hnames ▸ Iff.rfl) hextra hfaithful hcalls hV P c
  · refine Exchange.not_hidden_ofLoop fun hnone => hname.resolve_left ?_
    rw [howner hnone]
    exact Bool.false_ne_true

end ProgramBreeding

import ProgramBreeding.Proofs.Rule.Scope
import ProgramBreeding.Proofs.Rule.Writable

/-!
# Loops that are replaced

A loop that adds up or appends leaves its variable behind, and what takes its place does not.  So the two
programs differ in that variable afterwards, which nothing else reads.

## Main definitions

* `Program.KeptBy` — a program that completes as another one does.
* `SimpleLoop.IsIsolated` — a loop whose variables nothing else can see while it runs.
* `Exchange.ofLoop`, `SimpleLoop.Matches.matches_replaceLoop` — a loop replaced in a program.
-/

namespace ProgramBreeding

/-! ### Programs that complete alike -/

/-- Whatever a call of one of some functions completes with, value and output, the other program completes with
under every budget that is large enough. -/
def Program.KeptBy (callable : String → Prop) (p p' : Program) : Prop :=
  ∀ (fuel : UInt64) (name : String) (args : List Datum) (value : Datum) (s : State), callable name →
    (p.perform { fuel } name args).run {} = .ok value s →
      ∃ least : UInt64, ∀ fuel' ≥ least, ∃ s' : State,
        (p'.perform { fuel := fuel' } name args).run {} = .ok value s' ∧ s'.output = s.output

/-- A program that does not complete with the same result under the greatest budget does not do what another one
does. -/
theorem Program.not_keptBy {callable : String → Prop} {p p' : Program} {fuel : UInt64} {name : String}
    (hname : callable name) (args : List Datum)
    (h : (answer ((p.perform { fuel } name args).run {})).isOk = true)
    (h' : (answer ((p'.perform { fuel := 0xFFFFFFFFFFFFFFFF } name args).run {})).toOption.map Datum.text ≠
      (answer ((p.perform { fuel } name args).run {})).toOption.map Datum.text) : ¬ p.KeptBy callable p' := by
  intro hkept
  cases hrun : (p.perform { fuel } name args).run {} with
  | error e s =>
    rw [hrun] at h
    cases h
  | ok value s =>
    obtain ⟨least, hleast⟩ := hkept fuel name args value s hname hrun
    have hle : least ≤ 0xFFFFFFFFFFFFFFFF := UInt64.le_iff_toNat_le.mpr (Nat.le_of_lt_succ least.toNat_lt_size)
    obtain ⟨s', hrun', -⟩ := hleast _ hle
    rw [hrun, hrun'] at h'
    exact h' rfl

/-- Fewer functions may be called. -/
theorem Program.KeptBy.mono {callable callable' : String → Prop} {p p' : Program} (h : p.KeptBy callable p')
    (hle : ∀ name, callable' name → callable name) : p.KeptBy callable' p' :=
  fun fuel name args value s hname => h fuel name args value s (hle name hname)

/-- Parts that complete alike in any two runs make programs that complete alike, if for each unit of fuel there is
enough to spare. -/
theorem Program.Matches.keptBy {X : Exchange} {p p' : Program} (h : p.Matches X p') (extra : Nat)
    (hX : ∀ S : Setting, X.Suits S → S.names = X.names → S.extra = extra → ¬ S.faithful →
      X.HoldsIn S p.functions p'.functions) : p.KeptBy (fun name => ¬ X.hidden none name) p' := by
  intro fuel name args value s hname hrun
  let least := min ((1 + extra) * fuel.toNat + extra) (UInt64.size - 1)
  refine ⟨least.toUInt64, fun fuel' hfuel' => ?_⟩
  have henough : least ≤ fuel'.toNat := by
    have hle := UInt64.le_iff_toNat_le.mp hfuel'
    have hleast : least.toUInt64.toNat = least := Nat.mod_eq_of_lt (by simp only [least, UInt64.size]; omega)
    omega
  let S : Setting :=
    { labels := X.labels, fuel, fuel', extra, enough := henough, names := X.names, faithful := False }
  have hsuits : X.Suits S := ⟨rfl, id⟩
  have hend := h.perform (S := S) hsuits (hX S hsuits rfl rfl id) hname args {} {} agree_start
  rw [hrun] at hend
  obtain ⟨value', s', hrun', Q, -, rfl, hagree⟩ := hend
  exact ⟨s', hrun', hagree.output⟩

/-! ### Loops in programs -/

/-- Nothing else sees the variables of a loop while it runs.  What it runs over does not depend on its variable,
which a loop around it could have left behind, and if it stands outside of all functions, then none of them reads
its result before it is there. -/
structure SimpleLoop.IsIsolated (t : Tree) (label : Label) (loop : SimpleLoop) : Prop where
  source : loop.source.mentions loop.var = false
  result : t.isInFunction label = true ∨ ∀ entry ∈ Block.functions t.body, ∀ node ∈ Block.nodes entry.2.body,
    node.isName loop.name = false

/-- The exchange of statements of a function, or of the module, that leave the variable `x` behind and build up
what is in `name`. -/
def Exchange.ofLoop (functions : List Label) (names : String → Prop) (owner : Option Label) (x name : String)
    (part part' : Block Label) : Exchange where
  labels := .ofFunctions functions
  expr _ _ := False
  part o p p' := o = owner ∧ p = part ∧ p' = part'
  body _ _ := False
  not_assignable := @not_assignable_of_none
  hidden o y := o = owner ∧ y = x ∨ owner = none ∧ o ≠ none ∧ (y = x ∨ y = name)
  concealed y := owner = none ∧ (y = x ∨ y = name)
  names := names

section

variable {functions : List Label} {names : String → Prop} {owner : Option Label} {x name : String}
  {part part' : Block Label}

theorem Exchange.ofLoop_conceals : (Exchange.ofLoop functions names owner x name part part').Conceals :=
  fun _ _ hy => .inr ⟨hy.1, Option.some_ne_none _, hy.2⟩

/-- The exchange leaves all functions alone that can be called from outside, but for a variable of the module. -/
theorem Exchange.not_hidden_ofLoop {y : String} (h : owner = none → y ≠ x) :
    ¬ (Exchange.ofLoop functions names owner x name part part').hidden none y := by
  rintro (⟨hnone, rfl⟩ | ⟨-, hne, -⟩)
  · exact h hnone.symm rfl
  · exact hne rfl

theorem Exchange.ofLoop_globals (y : String)
    (h : (Exchange.ofLoop functions names owner x name part part').hidden none y) :
    (Exchange.ofLoop functions names owner x name part part').concealed y := by
  rcases h with ⟨howner, hy⟩ | ⟨-, hne, -⟩
  · exact ⟨howner.symm, .inl hy⟩
  · exact absurd rfl hne

theorem Exchange.ofLoop_keepsFunctions (hpart' : Block.functions part' = []) :
    (Exchange.ofLoop functions names owner x name part part').KeepsFunctions where
  part := by
    rintro _ _ _ ⟨-, rfl, rfl⟩
    rw [hpart']
    exact .nil
  body := False.elim

end

/-- The path to a loop leads into the function around it, or into none, and from there into no other one. -/
structure SimpleLoop.IsReached (loop : SimpleLoop) (t : Tree) (outer inner : Path) (owner : Option Label) : Prop where
  body : t.body = (outer ++ inner).fill loop.focus.block
  replaced : ∀ new, Block.replaceAround loop.focus.stmt.tag new t.body = (outer ++ inner).fill new
  outer : outer.LeadsInto owner
  inner : inner.IsFlat

namespace SimpleLoop.Matches

variable {t : Tree} {label : Label} {loop : SimpleLoop} {outer inner : Path} {owner : Option Label}

theorem exists_isReached (hloop : loop.Matches t label) (h : t.HasLabels) :
    ∃ outer inner owner, loop.IsReached t outer inner owner := by
  obtain ⟨path, hbody, -, hreplaced⟩ := Block.exists_path h.nodup hloop.focus
  obtain ⟨outer, inner, owner, rfl, houter, hinner⟩ := path.exists_scope
  exact ⟨outer, inner, owner, hbody, hreplaced, houter, hinner⟩

theorem body_replaceLoop (hreached : loop.IsReached t outer inner owner) (value : Expr Label) (next : Label) :
    (t.replaceLoop loop value next).body =
      (outer ++ inner).fill (loop.before ++ ([.assign next loop.target value] ++ loop.focus.after)) := by
  let new : Block Label := loop.before ++ .assign next loop.target value :: loop.focus.after
  rcases Tree.body_refocus { t with next := next + 1 } loop.focus new with hnew | ⟨hempty, -⟩
  · exact hnew.trans (hreached.replaced _)
  · simp [new] at hempty

/-- A loop of the module stands in no function. -/
theorem of_module (hloop : loop.Matches t label) (h : t.HasLabels) (hreached : loop.IsReached t outer inner owner)
    (hnone : owner = none) : outer = [] ∧ t.isInFunction label = false := by
  obtain ⟨htag, -⟩ := Block.mem_of_focus? hloop.focus
  obtain ⟨hbody, -, houter, hinner⟩ := hreached
  subst hnone
  cases houter with
  | module => exact ⟨rfl, htag ▸ h.isInFunction_eq_false hbody hinner⟩

theorem mem_focus_before (hloop : loop.Matches t label) {node : Node Label}
    (hnode : node ∈ Block.nodes loop.before ++ Block.nodes loop.focus.after) :
    node ∈ Block.nodes loop.focus.before ++ Block.nodes loop.focus.after := by
  obtain ⟨l, hbefore⟩ := hloop.before
  rw [hbefore, Block.nodes_append]
  simp only [List.mem_append] at hnode ⊢
  tauto

/-- Nothing beside the loop and beside the path to it reads its variable, up to the function around it. -/
theorem isName_var_eq_false (hloop : loop.Matches t label) (h : t.HasLabels)
    (hreached : loop.IsReached t outer inner owner) {node : Node Label}
    (hnode : node ∈ Block.nodes loop.before ++ Block.nodes loop.focus.after ∨ ∃ level ∈ inner, node ∈ level.nodes) :
    node.isName loop.var = false :=
  h.isName_eq_false hreached.body hreached.outer hreached.inner hloop.unread (hnode.imp_left hloop.mem_focus_before)

section

variable {functions : List Label} {names : String → Prop} {part part' : Block Label}

/-- Nor does it read any other variable that may differ there. -/
theorem not_hidden (hloop : loop.Matches t label) (h : t.HasLabels) (hreached : loop.IsReached t outer inner owner)
    {node : Node Label}
    (hnode : node ∈ Block.nodes loop.before ++ Block.nodes loop.focus.after ∨ ∃ level ∈ inner, node ∈ level.nodes)
    (y : String) (hy : node.isName y = true) :
    ¬ (Exchange.ofLoop functions names owner loop.var loop.name part part').hidden owner y := by
  rintro (⟨-, rfl⟩ | ⟨hnone, hne, -⟩)
  · rw [hloop.isName_var_eq_false h hreached hnode] at hy
    cases hy
  · exact hne hnone

theorem avoids (hloop : loop.Matches t label) (h : t.HasLabels) (hreached : loop.IsReached t outer inner owner) :
    Path.Avoids (Exchange.ofLoop functions names owner loop.var loop.name part part').hidden none (outer ++ inner) := by
  have houter : outer.Avoids (Exchange.ofLoop functions names owner loop.var loop.name part part').hidden none := by
    refine hreached.outer.avoids ?_ fun hne o x hhidden => ?_
    · have hnodup := h.nodup_along hreached.body
      rw [Path.labels, List.flatMap_append] at hnodup
      exact (List.nodup_append.mp (List.nodup_append.mp hnodup).1).1
    · exact hhidden.elim (fun hhere => hhere.1) fun hthere => absurd hthere.1 hne
  refine Path.avoids_append houter ?_
  rw [hreached.outer.owner_eq]
  exact hreached.inner.avoids fun level hlevel node hnode => hloop.not_hidden h hreached (.inr ⟨level, hlevel, hnode⟩)

/-- The functions beside the loop read nothing that may differ in them. -/
theorem not_hidden_functions (hloop : loop.Matches t label) (h : t.HasLabels) (hisolated : loop.IsIsolated t label)
    (hreached : loop.IsReached t outer inner owner) :
    ∀ entry ∈ functionsBeside (outer ++ inner) loop.before loop.focus.after, ∀ node ∈ Block.nodes entry.2.body, ∀ y,
      node.isName y = true →
        ¬ (Exchange.ofLoop functions names owner loop.var loop.name part part').hidden (some entry.1) y := by
  intro entry hentry node hnode y hy hhidden
  obtain ⟨s, hs, hnodes, hbeside⟩ := exists_node_of_functionsBeside hentry
  rcases hhidden with ⟨rfl, -⟩ | ⟨hnone, -, rfl | rfl⟩
  -- The function around the loop is not beside it.
  · exact h.tag_ne hreached.body hreached.outer (hbeside.imp_left hloop.mem_focus_before) hs
  · obtain ⟨rfl, -⟩ := hloop.of_module h hreached hnone
    have hinside {block : Block Label} (hmem : Node.stmt s ∈ Block.nodes block) : node ∈ Block.nodes block :=
      Block.mem_nodes_trans hmem (hnodes node hnode)
    have hmem : node ∈ Block.nodes loop.before ++ Block.nodes loop.focus.after ∨
        ∃ level ∈ inner, node ∈ level.nodes := by
      rcases hbeside with hmem | ⟨level, hlevel, hmem⟩
      · exact .inl (List.mem_append.mpr ((List.mem_append.mp hmem).imp hinside hinside))
      · exact .inr ⟨level, hlevel, Level.mem_nodes_trans hmem (hnodes node hnode)⟩
    rw [hloop.isName_var_eq_false h hreached hmem] at hy
    cases hy
  · obtain ⟨-, hmodule⟩ := hloop.of_module h hreached hnone
    have hresult := hisolated.result.resolve_left (by simp [hmodule])
    obtain ⟨l, hbefore⟩ := hloop.before
    have hmem := mem_functions_of_functionsBeside hentry [.assign l loop.target loop.init, loop.focus.stmt]
    have hblock : loop.focus.block =
        loop.before ++ ([.assign l loop.target loop.init, loop.focus.stmt] ++ loop.focus.after) := by
      rw [Focus.block, hbefore, List.append_assoc]
      rfl
    rw [← hblock, ← hreached.body] at hmem
    rw [hresult entry hmem node hnode] at hy
    cases hy

end

/-- A program matches the one in which a loop has given way to an assignment, if nothing else sees the variables of
the loop while it runs. -/
theorem matches_replaceLoop (hloop : loop.Matches t label) (h : t.HasLabels) (hisolated : loop.IsIsolated t label)
    (value : Expr Label) (next : Label) :
    ∃ (owner : Option Label) (l : Label), (owner = none → t.isInFunction label = false) ∧
      (Program.ofTree t).Matches
        (.ofLoop (Block.functionLabels (t.replaceLoop loop value next).body) (· ∈ Block.boundNames t.body) owner
          loop.var loop.name [.assign l loop.target loop.init, loop.focus.stmt] [.assign next loop.target value])
        (Program.ofTree (t.replaceLoop loop value next)) := by
  obtain ⟨outer, inner, owner, hreached⟩ := hloop.exists_isReached h
  obtain ⟨l, hbefore⟩ := hloop.before
  refine ⟨owner, l, fun hnone => (hloop.of_module h hreached hnone).2, ?_⟩
  let X := Exchange.ofLoop (Block.functionLabels (t.replaceLoop loop value next).body) (· ∈ Block.boundNames t.body)
    owner loop.var loop.name [.assign l loop.target loop.init, loop.focus.stmt] [.assign next loop.target value]
  have howner : (outer ++ inner).owner none = owner := by
    rw [Path.owner_append, hreached.outer.owner_eq, hreached.inner.owner_eq]
  have hbody : t.body = (outer ++ inner).fill
      (loop.before ++ ([.assign l loop.target loop.init, loop.focus.stmt] ++ loop.focus.after)) := by
    rw [hreached.body, Focus.block, hbefore, List.append_assoc]
    rfl
  have hbody' : (t.replaceLoop loop value next).body =
      (outer ++ inner).fill (loop.before ++ ([.assign next loop.target value] ++ loop.focus.after)) :=
    body_replaceLoop hreached value next
  have hmatches : Block.Matches X none t.body (t.replaceLoop loop value next).body := by
    have hself : ∀ l ∈ Block.functionLabels (t.replaceLoop loop value next).body, X.labels.rel l l :=
      fun l hl => ⟨rfl, hl⟩
    have hnames : ∀ node ∈ Block.nodes t.body, ∀ x ∈ node.boundNames, X.names x := fun node hnode x hx =>
      List.mem_flatMap.mpr ⟨node, hnode, hx⟩
    have hbeside : ∀ node ∈ Block.nodes loop.before ++ Block.nodes loop.focus.after, ∀ x, node.isName x = true →
        ¬ X.hidden ((outer ++ inner).owner none) x := fun node hnode =>
      howner.symm ▸ hloop.not_hidden h hreached (.inl hnode)
    rw [hbody'] at hself ⊢
    rw [hbody] at hnames ⊢
    exact Block.matches_fill ⟨howner, rfl, rfl⟩ (hloop.avoids h hreached) hbeside hnames hself
      (hloop.not_hidden_functions h hisolated hreached)
  exact Program.matches_ofTree hmatches (Exchange.ofLoop_keepsFunctions rfl) h (fun l l' hl => hl.1 ▸ hl.2)
    Exchange.ofLoop_conceals Exchange.ofLoop_globals

end SimpleLoop.Matches

end ProgramBreeding

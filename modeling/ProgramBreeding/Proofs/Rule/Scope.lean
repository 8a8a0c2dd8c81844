import ProgramBreeding.Proofs.Rule.Behaviour
import ProgramBreeding.Proofs.Tree.Total
import ProgramBreeding.Rule.Loop

/-!
# The function around a statement

A rule may replace a loop whose variable nothing reads around it, and around it means in the innermost function, or
in the module.  Here this becomes a condition on the path to the loop, which leads into that function and from there
into no other one.

## Main definitions

* `Path.IsFlat`, `Path.LeadsInto`, `Path.exists_scope` — where a path leads into its last function.
* `bodiesAround`, `Tree.HasLabels.scopeOf_eq` — the innermost function around a statement.
* `Tree.HasLabels.isName_eq_false` — nothing beside the path from there reads the variable.
* `Path.Avoids`, `Block.matches_fill` — statements exchanged at the end of a path beside which nothing reads what
  comes to differ.
-/

namespace ProgramBreeding

/-! ### Functions on a path -/

/-- Whether the block in a hole is the body of a function. -/
def Hole.isFunction : Hole → Bool
  | .functionDef .. => true
  | _ => false

namespace Path

/-- A path that leads into no function. -/
def IsFlat (path : Path) : Prop := ∀ level ∈ path, level.hole.isFunction = false

theorem IsFlat.owner_eq {path : Path} (h : IsFlat path) (outer : Option Label) : owner outer path = outer := by
  induction path with
  | nil => rfl
  | cons level path ih =>
    have hlevel := h level (List.mem_cons_self ..)
    have hpath : IsFlat path := fun level' hlevel' => h level' (List.mem_cons_of_mem _ hlevel')
    have hhole : level.hole.owner outer = outer := by
      revert hlevel
      cases level.hole with
      | functionDef => exact nofun
      | _ => exact fun _ => rfl
    rw [owner, hhole, ih hpath]

theorem owner_append (outer : Option Label) (path path' : Path) :
    owner outer (path ++ path') = owner (owner outer path) path' := by
  induction path generalizing outer with
  | nil => rfl
  | cons level path ih => exact ih _

theorem fill_append (path path' : Path) (block : Block Label) :
    (path ++ path').fill block = path.fill (path'.fill block) := by
  induction path with
  | nil => rfl
  | cons level path ih => exact congrArg level.fill ih

/-- A path into the body of a function, or no path at all. -/
inductive LeadsInto : Path → Option Label → Prop
  | module : LeadsInto [] none
  | function (outer : Path) {level : Level} {l : Label} {name : String} {params : List String}
    (h : level.hole = .functionDef l name params) : LeadsInto (outer ++ [level]) (some l)

theorem LeadsInto.owner_eq {path : Path} {o : Option Label} (h : LeadsInto path o) : owner none path = o := by
  cases h with
  | module => rfl
  | function outer h => rw [owner_append, owner, h, Hole.owner, owner]

/-- Every path leads into a last function, or into none, and then into no other one. -/
theorem exists_scope (path : Path) : ∃ (outer inner : Path) (o : Option Label), path = outer ++ inner ∧
    LeadsInto outer o ∧ IsFlat inner := by
  induction path with
  | nil => exact ⟨[], [], none, rfl, .module, nofun⟩
  | cons level path ih =>
    obtain ⟨outer, inner, o, rfl, houter, hinner⟩ := ih
    cases houter with
    | function outer h => exact ⟨level :: (outer ++ [_]), inner, _, rfl, .function (level :: outer) h, hinner⟩
    | module =>
      cases hhole : level.hole with
      | functionDef l name params => exact ⟨[level], inner, some l, rfl, .function [] hhole, hinner⟩
      | _ =>
        refine ⟨[], level :: inner, none, rfl, .module, fun level' hlevel' => ?_⟩
        rcases List.mem_cons.mp hlevel' with rfl | hlevel'
        · rw [hhole]
          rfl
        · exact hinner level' hlevel'

end Path

/-! ### Functions around a label -/

/-- The bodies of the functions among some nodes that have a node with a label. -/
def bodiesAround (label : Label) (nodes : List (Node Label)) : List (Block Label) :=
  (nodes.filterMap Node.functionBody?).filter fun body => (Block.nodes body).any fun node => node.tag = label

section

variable {label : Label} {nodes nodes' : List (Node Label)}

theorem bodiesAround_append :
    bodiesAround label (nodes ++ nodes') = bodiesAround label nodes ++ bodiesAround label nodes' := by
  simp only [bodiesAround, List.filterMap_append, List.filter_append]

theorem bodiesAround_eq_nil (h : ∀ l name params body, .stmt (.functionDef l name params body) ∈ nodes →
    ∀ node ∈ Block.nodes body, node.tag ≠ label) : bodiesAround label nodes = [] := by
  rw [bodiesAround, List.filter_eq_nil_iff]
  intro body hbody
  obtain ⟨node, hnode, heq⟩ := List.mem_filterMap.mp hbody
  unfold Node.functionBody? at heq
  split at heq
  · cases heq
    simpa using h _ _ _ _ hnode
  · cases heq

theorem bodiesAround_expr (e : Expr Label) : bodiesAround label e.nodes = [] := by
  refine bodiesAround_eq_nil fun l name params body hnode => ?_
  obtain ⟨part, -, heq⟩ := List.mem_map.mp hnode
  cases heq

theorem bodiesAround_block {block : Block Label} (h : label ∉ (Block.nodes block).map Node.tag) :
    bodiesAround label (Block.nodes block) = [] := by
  refine bodiesAround_eq_nil fun l name params body hnode node hbody htag => h ?_
  refine htag ▸ List.mem_map_of_mem (Block.mem_nodes_trans hnode ?_)
  exact List.mem_cons_of_mem _ hbody

/-- A statement is in no function below itself. -/
theorem Stmt.bodiesAround_tag {s : Stmt Label} (h : s.labels.Nodup) : bodiesAround s.tag s.nodes = [] := by
  have hnodes : s.nodes = .stmt s :: (Node.stmt s).children.flatMap Node.nodes := (Node.stmt s).nodes_eq
  have hbelow : ∀ node ∈ (Node.stmt s).children.flatMap Node.nodes, node.tag ≠ s.tag := by
    intro node hnode htag
    have hnodup : (s.nodes.map Node.tag).Nodup := h
    rw [hnodes, List.map_cons, List.nodup_cons] at hnodup
    exact hnodup.1 (List.mem_map.mpr ⟨node, hnode, htag⟩)
  refine bodiesAround_eq_nil fun l name params body hdef node hnode => hbelow node ?_
  rw [hnodes] at hdef
  rcases List.mem_cons.mp hdef with heq | hdef
  · rw [← heq, Node.children, ← Block.nodes_eq]
    exact hnode
  · obtain ⟨child, hchild, hdef⟩ := List.mem_flatMap.mp hdef
    refine List.mem_flatMap.mpr ⟨child, hchild, ?_⟩
    cases child with
    | expr e => exact Expr.mem_nodes_trans hdef (List.mem_cons_of_mem _ hnode)
    | stmt s' => exact Stmt.mem_nodes_trans hdef (List.mem_cons_of_mem _ hnode)

theorem Hole.bodiesAround_fill {hole : Hole} {block : Block Label}
    (h : label ∉ hole.nodes.map Node.tag) (hblock : label ∈ (Block.nodes block).map Node.tag) :
    bodiesAround label (hole.fill block).nodes =
      (if hole.isFunction then [block] else []) ++ bodiesAround label (Block.nodes block) := by
  have hskip (s : Stmt Label) (hs : (Node.stmt s).functionBody? = none) (nodes : List (Node Label)) :
      bodiesAround label (.stmt s :: nodes) = bodiesAround label nodes := by
    rw [bodiesAround, List.filterMap_cons, hs]
    rfl
  cases hole with
  | functionDef l name params =>
    have hany : ((Block.nodes block).any fun node => node.tag = label) = true := by
      obtain ⟨node, hnode, htag⟩ := List.mem_map.mp hblock
      exact List.any_eq_true.mpr ⟨node, hnode, decide_eq_true htag⟩
    simp only [bodiesAround, fill, Stmt.nodes, List.filterMap_cons, Node.functionBody?, List.filter_cons, hany,
      if_true, isFunction]
    rfl
  | forLoop l x source | whileLoop l source =>
    rw [fill, Stmt.nodes, hskip _ rfl, bodiesAround_append, bodiesAround_expr]
    rfl
  | thenBlock l test orelse =>
    simp only [nodes, List.map_append, List.mem_append, not_or] at h
    rw [fill, Stmt.nodes, hskip _ rfl, bodiesAround_append, bodiesAround_append, bodiesAround_expr,
      bodiesAround_block h.2, List.append_nil]
    rfl
  | elseBlock l test body =>
    simp only [nodes, List.map_append, List.mem_append, not_or] at h
    rw [fill, Stmt.nodes, hskip _ rfl, bodiesAround_append, bodiesAround_append, bodiesAround_expr,
      bodiesAround_block h.2]
    rfl

theorem Level.bodiesAround_fill {level : Level} {block : Block Label} (h : label ∉ level.labels)
    (hblock : label ∈ (Block.nodes block).map Node.tag) :
    bodiesAround label (Block.nodes (level.fill block)) =
      (if level.hole.isFunction then [block] else []) ++ bodiesAround label (Block.nodes block) := by
  simp only [labels, nodes, List.map_append, List.mem_cons, List.mem_append, not_or] at h
  obtain ⟨-, ⟨hbefore, hhole⟩, hafter⟩ := h
  rw [fill, Block.nodes_append, Block.nodes, bodiesAround_append, bodiesAround_append, bodiesAround_block hbefore,
    bodiesAround_block hafter, Hole.bodiesAround_fill hhole hblock, List.append_nil, List.nil_append]

/-- By induction on the path. -/
theorem Path.IsFlat.bodiesAround_fill {block : Block Label} (hblock : label ∈ (Block.nodes block).map Node.tag) :
    ∀ {path : Path}, IsFlat path → label ∉ path.labels →
      bodiesAround label (Block.nodes (path.fill block)) = bodiesAround label (Block.nodes block)
  | [], _, _ => rfl
  | level :: path, hflat, h => by
    rw [labels, List.flatMap_cons, List.mem_append, not_or] at h
    have hmem : label ∈ (Block.nodes (fill path block)).map Node.tag :=
      (tags_fill block path).mem_iff.mpr (List.mem_append_right _ hblock)
    rw [fill, Level.bodiesAround_fill h.1 hmem, hflat level (List.mem_cons_self ..)]
    exact bodiesAround_fill hblock (fun level' hlevel' => hflat level' (List.mem_cons_of_mem _ hlevel')) h.2

/-- By induction on the path: functions further in come later. -/
theorem Path.bodiesAround_fill_suffix {block : Block Label} (hblock : label ∈ (Block.nodes block).map Node.tag) :
    ∀ {path : Path}, label ∉ path.labels → ∃ bodies,
      bodiesAround label (Block.nodes (path.fill block)) = bodies ++ bodiesAround label (Block.nodes block)
  | [], _ => ⟨[], rfl⟩
  | level :: path, h => by
    rw [labels, List.flatMap_cons, List.mem_append, not_or] at h
    have hmem : label ∈ (Block.nodes (fill path block)).map Node.tag :=
      (tags_fill block path).mem_iff.mpr (List.mem_append_right _ hblock)
    obtain ⟨bodies, hbodies⟩ := bodiesAround_fill_suffix hblock h.2
    rw [fill, Level.bodiesAround_fill h.1 hmem, hbodies, ← List.append_assoc]
    exact ⟨_, rfl⟩

end

namespace Tree

variable {t : Tree} {focus : Focus} {path outer inner : Path} {o : Option Label}

/-- The labels beside a statement, those of the statement and those of its path are distinct. -/
theorem HasLabels.nodup_along (h : t.HasLabels) (hbody : t.body = path.fill focus.block) :
    (path.labels ++ ((Block.nodes focus.before).map Node.tag ++
      (focus.stmt.labels ++ (Block.nodes focus.after).map Node.tag))).Nodup := by
  have hnodup := (path.tags_fill focus.block).nodup_iff.mp (hbody ▸ h.nodup)
  rwa [Focus.block, Block.nodes_append, Block.nodes, List.map_append, List.map_append] at hnodup

/-- No function is around a statement but those that its path leads into. -/
theorem HasLabels.bodiesAround_fill (h : t.HasLabels) (hbody : t.body = (outer ++ inner).fill focus.block)
    (hinner : inner.IsFlat) :
    focus.stmt.tag ∉ outer.labels ∧ bodiesAround focus.stmt.tag (Block.nodes (inner.fill focus.block)) = [] := by
  have hnodup := h.nodup_along hbody
  have hstmt : focus.stmt.tag ∈ focus.stmt.labels := List.mem_map_of_mem focus.stmt.self_mem_nodes
  have hfree : focus.stmt.tag ∉ (outer ++ inner).labels ∧ focus.stmt.tag ∉ (Block.nodes focus.before).map Node.tag ∧
      focus.stmt.tag ∉ (Block.nodes focus.after).map Node.tag ∧ focus.stmt.labels.Nodup := by
    simp only [List.nodup_append, List.mem_append] at hnodup
    grind
  obtain ⟨hpath, hbefore, hafter, hlabels⟩ := hfree
  rw [Path.labels, List.flatMap_append, List.mem_append, not_or] at hpath
  refine ⟨hpath.1, ?_⟩
  have hblock : focus.stmt.tag ∈ (Block.nodes focus.block).map Node.tag := Path.tag_mem_of_focus []
  rw [hinner.bodiesAround_fill hblock hpath.2, Focus.block, Block.nodes_append, Block.nodes,
    bodiesAround_append, bodiesAround_append, bodiesAround_block hbefore, bodiesAround_block hafter,
    Stmt.bodiesAround_tag hlabels]
  rfl

/-- The scope of a statement is the body of the function that its path leads into, or the module. -/
theorem HasLabels.scopeOf_eq (h : t.HasLabels) (hbody : t.body = (outer ++ inner).fill focus.block)
    (houter : outer.LeadsInto o) (hinner : inner.IsFlat) :
    t.scopeOf focus.stmt.tag = inner.fill focus.block := by
  obtain ⟨hpath, hinside⟩ := h.bodiesAround_fill hbody hinner
  have hmem : focus.stmt.tag ∈ (Block.nodes (inner.fill focus.block)).map Node.tag := inner.tag_mem_of_focus
  have hscope : t.scopeOf focus.stmt.tag = (bodiesAround focus.stmt.tag (Block.nodes t.body)).getLast?.getD t.body :=
    rfl
  rw [hscope, hbody, Path.fill_append]
  cases houter with
  | module => rw [Path.fill, hinside]; rfl
  | @function outer level l name params hhole =>
    rw [Path.labels, List.flatMap_append, List.mem_append, not_or] at hpath
    have hlevel : focus.stmt.tag ∉ level.labels := by simpa using hpath.2
    have hlast : bodiesAround focus.stmt.tag (Block.nodes (level.fill (inner.fill focus.block))) =
        [inner.fill focus.block] := by
      rw [Level.bodiesAround_fill hlevel hmem, hinside, hhole]
      rfl
    have hmem' : focus.stmt.tag ∈ (Block.nodes (level.fill (inner.fill focus.block))).map Node.tag :=
      (level.tags_fill _).mem_iff.mpr (List.mem_append_right _ hmem)
    rw [Path.fill_append]
    obtain ⟨bodies, hbodies⟩ := Path.bodiesAround_fill_suffix hmem' hpath.1
    rw [show Path.fill [level] (inner.fill focus.block) = level.fill (inner.fill focus.block) from rfl, hbodies, hlast,
      List.getLast?_append]
    rfl

/-- A variable that is not read around a statement is read neither beside it nor, up to the function around it,
beside its path. -/
theorem HasLabels.isName_eq_false (h : t.HasLabels) (hbody : t.body = (outer ++ inner).fill focus.block)
    (houter : outer.LeadsInto o) (hinner : inner.IsFlat) {x : String}
    (hunread : t.isReadAround focus.stmt x = false) {node : Node Label}
    (hnode : node ∈ Block.nodes focus.before ++ Block.nodes focus.after ∨ ∃ level ∈ inner, node ∈ level.nodes) :
    node.isName x = false := by
  have hmem : node ∈ Block.nodes (inner.fill focus.block) := by
    rw [Path.mem_nodes_fill, Focus.block, Block.nodes_append, Block.nodes]
    simp only [List.mem_append] at hnode ⊢
    rcases hnode with (hnode | hnode) | hnode
    · exact .inr (.inr (.inl hnode))
    · exact .inr (.inr (.inr (.inr hnode)))
    · exact .inr (.inl hnode)
  have hown : node.tag ∉ focus.stmt.labels := by
    have hnodup := h.nodup_along hbody
    rw [Path.labels, List.flatMap_append] at hnodup
    intro htag
    rcases hnode with hnode | ⟨level, hlevel, hnode⟩
    · have hmem := List.mem_map_of_mem (f := Node.tag) hnode
      simp only [List.nodup_append, List.mem_append, List.map_append] at hnodup hmem
      grind
    · have hmem : node.tag ∈ inner.flatMap Level.labels :=
        List.mem_flatMap.mpr ⟨level, hlevel, List.mem_cons_of_mem _ (List.mem_map_of_mem hnode)⟩
      simp only [List.nodup_append, List.mem_append] at hnodup
      grind
  unfold isReadAround at hunread
  rw [h.scopeOf_eq hbody houter hinner, List.any_eq_false] at hunread
  have hnot := hunread node hmem
  rw [Bool.and_eq_true, not_and_or, Bool.not_eq_true, Bool.not_eq_true, Bool.not_eq_false',
    List.contains_iff_mem] at hnot
  exact hnot.resolve_right hown

/-- Whether a node stands in a function. -/
def isInFunction (t : Tree) (label : Label) : Bool :=
  (t.nodes.filterMap Node.functionBody?).any fun body => (Block.nodes body).any fun node => node.tag = label

/-- Where a path leads into no function, its end stands in none. -/
theorem HasLabels.isInFunction_eq_false (h : t.HasLabels) (hbody : t.body = inner.fill focus.block)
    (hinner : inner.IsFlat) : t.isInFunction focus.stmt.tag = false := by
  have hbody' : t.body = Path.fill ([] ++ inner) focus.block := hbody
  obtain ⟨-, hnone⟩ := HasLabels.bodiesAround_fill h hbody' hinner
  rw [← hbody, bodiesAround, List.filter_eq_nil_iff] at hnone
  exact List.any_eq_false.mpr hnone

/-- The function that a path leads into does not stand beside the path. -/
theorem HasLabels.tag_ne (h : t.HasLabels) {l : Label} (hbody : t.body = (outer ++ inner).fill focus.block)
    (houter : outer.LeadsInto (some l)) {node : Node Label}
    (hnode : node ∈ Block.nodes focus.before ++ Block.nodes focus.after ∨
      ∃ level ∈ outer ++ inner, node ∈ level.nodes) :
    node.tag ≠ l := by
  have hnodup := h.nodup_along hbody
  cases houter with
  | @function outer level l name params hhole =>
    have hl : l ∈ level.labels := by
      rw [Level.labels, hhole]
      exact List.mem_cons_self ..
    have hlevel : node ∈ level.nodes → node.tag ≠ l := by
      have hlabels : level.labels.Nodup := by
        simp only [Path.labels, List.flatMap_append, List.flatMap_singleton, List.nodup_append] at hnodup
        grind
      rw [Level.labels, hhole, List.nodup_cons] at hlabels
      exact fun hmem heq => hlabels.1 (heq ▸ List.mem_map_of_mem hmem)
    have htag {levels : List Level} {level' : Level} (hlevel' : level' ∈ levels) (hmem : node ∈ level'.nodes) :
        node.tag ∈ levels.flatMap Level.labels :=
      List.mem_flatMap.mpr ⟨level', hlevel', List.mem_cons_of_mem _ (List.mem_map_of_mem hmem)⟩
    simp only [Path.labels, List.flatMap_append, List.flatMap_singleton] at hnodup
    rintro rfl
    rcases hnode with hnode | ⟨level', hlevel', hmem⟩
    · have hmem := List.mem_map_of_mem (f := Node.tag) hnode
      simp only [List.nodup_append, List.mem_append, List.map_append] at hnodup hmem
      grind
    · rcases List.mem_append.mp hlevel' with hlevel' | hlevel'
      · rcases List.mem_append.mp hlevel' with hlevel' | hlevel'
        · have := htag hlevel' hmem
          simp only [List.nodup_append, List.mem_append] at hnodup
          grind
        · exact hlevel (List.mem_singleton.mp hlevel' ▸ hmem) rfl
      · have := htag hlevel' hmem
        simp only [List.nodup_append, List.mem_append] at hnodup
        grind

end Tree

/-! ### What is read beside a path -/

mutual

theorem Stmt.mem_functions : ∀ {s : Stmt Label} {entry : Label × FunctionDef}, entry ∈ s.functions →
    .stmt (.functionDef entry.1 entry.2.name entry.2.params entry.2.body) ∈ s.nodes
  | .functionDef .., _, h => by
    rcases List.mem_cons.mp h with rfl | h
    · exact List.mem_cons_self ..
    · exact .tail _ (Block.mem_functions h)
  | .forLoop .., _, h | .whileLoop .., _, h =>
    .tail _ (List.mem_append_right _ (Block.mem_functions h))
  | .ifElse .., _, h => by
    rcases List.mem_append.mp h with h | h
    · exact .tail _ (List.mem_append_left _ (List.mem_append_right _ (Block.mem_functions h)))
    · exact .tail _ (List.mem_append_right _ (Block.mem_functions h))

/-- A function of a program is defined by one of its statements. -/
theorem Block.mem_functions : ∀ {body : List (Stmt Label)} {entry : Label × FunctionDef},
    entry ∈ Block.functions body →
      .stmt (.functionDef entry.1 entry.2.name entry.2.params entry.2.body) ∈ Block.nodes body
  | [], _, h => nomatch h
  | _ :: _, _, h => by
    rcases List.mem_append.mp h with h | h
    · exact List.mem_append_left _ (Stmt.mem_functions h)
    · exact List.mem_append_right _ (Block.mem_functions h)

end

theorem Level.mem_functions {level : Level} {entry : Label × FunctionDef} (h : entry ∈ level.functions) :
    .stmt (.functionDef entry.1 entry.2.name entry.2.params entry.2.body) ∈ level.nodes := by
  obtain ⟨before, hole, after⟩ := level
  simp only [functions, nodes, List.mem_append] at h ⊢
  rcases h with (h | h) | h
  · exact .inl (.inl (Block.mem_functions h))
  · refine .inl (.inr ?_)
    cases hole with
    | thenBlock | elseBlock => exact List.mem_append_right _ (Block.mem_functions h)
    | functionDef | forLoop | whileLoop => cases h
  · exact .inr (Block.mem_functions h)

theorem Level.mem_nodes_trans {level : Level} {node inner : Node Label} (h : node ∈ level.nodes)
    (h' : inner ∈ node.nodes) : inner ∈ level.nodes := by
  obtain ⟨before, hole, after⟩ := level
  simp only [nodes, List.mem_append] at h ⊢
  rcases h with (h | h) | h
  · exact .inl (.inl (Block.mem_nodes_trans h h'))
  · refine .inl (.inr ?_)
    cases hole with
    | functionDef => cases h
    | forLoop | whileLoop => exact Expr.mem_nodes_trans h h'
    | thenBlock | elseBlock =>
      rcases List.mem_append.mp h with h | h
      · exact List.mem_append_left _ (Expr.mem_nodes_trans h h')
      · exact List.mem_append_right _ (Block.mem_nodes_trans h h')
  · exact .inr (Block.mem_nodes_trans h h')

/-- Nothing beside a path reads what may differ, in each function on the path. -/
def Path.Avoids (hidden : Option Label → String → Prop) : Option Label → Path → Prop
  | _, [] => True
  | owner, level :: path => (∀ node ∈ level.nodes, ∀ x, node.isName x = true → ¬ hidden owner x) ∧
    Path.Avoids hidden (level.hole.owner owner) path

namespace Path

variable {hidden : Option Label → String → Prop}

theorem avoids_append {path path' : Path} {owner : Option Label} (h : path.Avoids hidden owner)
    (h' : path'.Avoids hidden (path.owner owner)) : Path.Avoids hidden owner (path ++ path') := by
  induction path generalizing owner with
  | nil => exact h'
  | cons level path ih => exact ⟨h.1, ih h.2 h'⟩

theorem IsFlat.avoids {path : Path} (hflat : path.IsFlat) {owner : Option Label}
    (h : ∀ level ∈ path, ∀ node ∈ level.nodes, ∀ x, node.isName x = true → ¬ hidden owner x) :
    path.Avoids hidden owner := by
  induction path with
  | nil => exact trivial
  | cons level path ih =>
    have hpath : IsFlat path := fun level' hlevel' => hflat level' (List.mem_cons_of_mem _ hlevel')
    have howner : level.hole.owner owner = owner := by
      have hlevel : IsFlat [level] := fun level' hlevel' =>
        hflat level' (List.mem_singleton.mp hlevel' ▸ List.mem_cons_self ..)
      exact hlevel.owner_eq owner
    refine ⟨h level (List.mem_cons_self ..), ?_⟩
    rw [howner]
    exact ih hpath fun level' hlevel' => h level' (List.mem_cons_of_mem _ hlevel')

/-- Where variables may differ in one function only, a path into that function has nothing to avoid. -/
theorem LeadsInto.avoids {path : Path} {o : Option Label} (h : path.LeadsInto o) (hnodup : path.labels.Nodup)
    (hhidden : o ≠ none → ∀ owner x, hidden owner x → owner = o) : path.Avoids hidden none := by
  cases h with
  | module => exact trivial
  | @function outer level l name params hhole =>
    replace hhidden := hhidden (Option.some_ne_none l)
    -- By induction on the path: no function before the last one has its label.
    have houter : ∀ (path : Path) (owner : Option Label), owner ≠ some l → l ∉ path.labels →
        Avoids hidden owner (path ++ [level]) := by
      intro path
      induction path with
      | nil => exact fun owner hne _ => ⟨fun _ _ x _ hx => hne (hhidden owner x hx), trivial⟩
      | cons level' path ih =>
        intro owner hne hl
        rw [labels, List.flatMap_cons, List.mem_append, not_or] at hl
        refine ⟨fun _ _ x _ hx => hne (hhidden owner x hx), ih _ ?_ hl.2⟩
        have hlabel : l ≠ level'.hole.label := fun heq => hl.1 (heq ▸ List.mem_cons_self ..)
        cases hhole' : level'.hole with
        | functionDef k _ _ =>
          rw [hhole'] at hlabel
          exact fun heq => hlabel (Option.some.inj heq).symm
        | _ => exact hne
    refine houter outer none (Option.some_ne_none l).symm fun hmem => ?_
    rw [labels, List.flatMap_append] at hnodup
    refine (List.nodup_append.mp hnodup).2.2 _ hmem l ?_ rfl
    rw [List.flatMap_singleton, Level.labels, hhole]
    exact List.mem_cons_self ..

/-- What stands beside a path matches itself, if it reads nothing that may differ. -/
theorem Avoids.admits {X : Exchange} {block new : Block Label} : ∀ {path : Path} {owner : Option Label},
    path.Avoids X.hidden owner → (∀ node ∈ Block.nodes (path.fill block), ∀ x ∈ node.boundNames, X.names x) →
      (∀ l ∈ Block.functionLabels (path.fill new), X.labels.rel l l) →
        (∀ level ∈ path, ∀ entry ∈ level.functions, ∀ node ∈ Block.nodes entry.2.body, ∀ x, node.isName x = true →
          ¬ X.hidden (some entry.1) x) → path.Admits X owner
  | [], _, _, _, _, _ => trivial
  | level :: path, owner, h, hnames, hself, hentries => by
    have hlevel : ∀ node ∈ level.nodes, ∀ x ∈ node.boundNames, X.names x := fun node hnode =>
      hnames node (Level.mem_nodes_fill.mpr (.inr (.inl hnode)))
    refine ⟨⟨fun node hnode => ⟨h.1 node hnode, hlevel node hnode⟩, ?_, fun entry hentry => ⟨?_, ?_⟩, ?_⟩, ?_⟩
    · have hstmt := hnames _ (Level.mem_nodes_fill.mpr (.inl rfl))
      cases hhole : level.hole <;> rw [hhole] at hstmt <;> exact hstmt
    · exact hself _ (Level.mem_functions_fill.mpr (.inr (.inl (List.mem_map_of_mem hentry))))
    · intro node hnode
      refine ⟨hentries level (List.mem_cons_self ..) entry hentry node hnode, hlevel node ?_⟩
      exact Level.mem_nodes_trans (Level.mem_functions hentry) (List.mem_cons_of_mem _ hnode)
    · exact fun hhole => hself _ (Level.mem_functions_fill.mpr (.inl ⟨_, _, hhole⟩))
    · have hrest : ∀ l ∈ Block.functionLabels (Path.fill path new), X.labels.rel l l := fun l hl =>
        hself l (Level.mem_functions_fill.mpr (.inr (.inr hl)))
      exact Avoids.admits h.2 (fun node hnode => hnames node (Level.mem_nodes_fill.mpr (.inr (.inr hnode)))) hrest
        fun level' hlevel' => hentries level' (List.mem_cons_of_mem _ hlevel')

end Path

/-- The functions beside some statements and beside the path to them. -/
def functionsBeside (path : Path) (before after : Block Label) : List (Label × FunctionDef) :=
  Block.functions before ++ Block.functions after ++ path.flatMap Level.functions

theorem Level.mem_functions_fill_of_mem {level : Level} {block : Block Label} {entry : Label × FunctionDef}
    (h : entry ∈ level.functions ∨ entry ∈ Block.functions block) : entry ∈ Block.functions (level.fill block) := by
  obtain ⟨before, hole, after⟩ := level
  simp only [functions, fill, Block.functions_append, Block.functions, List.mem_append] at h ⊢
  have hhole (h : entry ∈ hole.functions ∨ entry ∈ Block.functions block) : entry ∈ (hole.fill block).functions := by
    cases hole with
    | functionDef => exact List.mem_cons_of_mem _ (h.resolve_left List.not_mem_nil)
    | forLoop | whileLoop => exact h.resolve_left List.not_mem_nil
    | thenBlock => exact List.mem_append.mpr h.symm
    | elseBlock => exact List.mem_append.mpr h
  tauto

theorem Path.mem_functions_fill_of_mem {block : Block Label} {entry : Label × FunctionDef} : ∀ {path : Path},
    entry ∈ path.flatMap Level.functions ∨ entry ∈ Block.functions block → entry ∈ Block.functions (path.fill block)
  | [], h => h.resolve_left List.not_mem_nil
  | level :: path, h => by
    rw [List.flatMap_cons, List.mem_append, or_assoc] at h
    exact Level.mem_functions_fill_of_mem (h.imp_right Path.mem_functions_fill_of_mem)

theorem mem_functions_of_functionsBeside {path : Path} {before after : Block Label} {entry : Label × FunctionDef}
    (h : entry ∈ functionsBeside path before after) (part : Block Label) :
    entry ∈ Block.functions (path.fill (before ++ (part ++ after))) := by
  refine Path.mem_functions_fill_of_mem ?_
  simp only [functionsBeside, Block.functions_append, List.mem_append] at h ⊢
  tauto

/-- A function beside some statements is defined there. -/
theorem exists_node_of_functionsBeside {path : Path} {before after : Block Label} {entry : Label × FunctionDef}
    (h : entry ∈ functionsBeside path before after) : ∃ s : Stmt Label, s.tag = entry.1 ∧
      (∀ node ∈ Block.nodes entry.2.body, node ∈ s.nodes) ∧
        (.stmt s ∈ Block.nodes before ++ Block.nodes after ∨ ∃ level ∈ path, .stmt s ∈ level.nodes) := by
  refine ⟨.functionDef entry.1 entry.2.name entry.2.params entry.2.body, rfl, fun _ => List.mem_cons_of_mem _, ?_⟩
  simp only [functionsBeside, List.mem_append, List.mem_flatMap] at h ⊢
  rcases h with (h | h) | ⟨level, hlevel, h⟩
  · exact .inl (.inl (Block.mem_functions h))
  · exact .inl (.inr (Block.mem_functions h))
  · exact .inr ⟨level, hlevel, Level.mem_functions h⟩

/-- With some statements exchanged, a program matches what it was, if what stands beside them and beside the path to
them reads nothing that may differ. -/
theorem Block.matches_fill {X : Exchange} {path : Path} {before part part' after : Block Label}
    (hpart : X.part (path.owner none) part part') (havoids : path.Avoids X.hidden none)
    (hbeside : ∀ node ∈ Block.nodes before ++ Block.nodes after, ∀ x, node.isName x = true →
      ¬ X.hidden (path.owner none) x)
    (hnames : ∀ node ∈ Block.nodes (path.fill (before ++ (part ++ after))), ∀ x ∈ node.boundNames, X.names x)
    (hself : ∀ l ∈ Block.functionLabels (path.fill (before ++ (part' ++ after))), X.labels.rel l l)
    (hentries : ∀ entry ∈ functionsBeside path before after, ∀ node ∈ Block.nodes entry.2.body, ∀ x,
      node.isName x = true → ¬ X.hidden (some entry.1) x) :
    Block.Matches X none (path.fill (before ++ (part ++ after))) (path.fill (before ++ (part' ++ after))) := by
  have hnamesBlock : ∀ node ∈ Block.nodes before ++ Block.nodes after, ∀ x ∈ node.boundNames, X.names x := by
    intro node hnode
    refine hnames node (Path.mem_nodes_fill_of_mem ?_ path)
    simp only [Block.nodes_append, List.mem_append] at hnode ⊢
    exact hnode.imp_right .inr
  have hadmits : ∀ node ∈ Block.nodes before ++ Block.nodes after, node.Admits X (path.owner none) :=
    fun node hnode => ⟨hbeside node hnode, hnamesBlock node hnode⟩
  have hfunctions : ∀ entry ∈ Block.functions before ++ Block.functions after, X.Admits entry := by
    intro entry hentry
    refine ⟨hself _ (Path.functionLabels_subset _ path ?_), fun node hnode => ⟨?_, hnamesBlock node ?_⟩⟩
    · simp only [Block.functionLabels, Block.functions_append, List.map_append, List.mem_append] at hentry ⊢
      exact hentry.imp List.mem_map_of_mem fun hentry => .inr (List.mem_map_of_mem hentry)
    · exact hentries entry (List.mem_append_left _ hentry) node hnode
    · have hinside {block : Block Label} (hentry : entry ∈ Block.functions block) : node ∈ Block.nodes block :=
        Block.mem_nodes_trans (Block.mem_functions hentry) (List.mem_cons_of_mem _ hnode)
      exact List.mem_append.mpr ((List.mem_append.mp hentry).imp hinside hinside)
  have hpath : path.Admits X none := havoids.admits hnames hself fun level hlevel entry hentry =>
    hentries entry (List.mem_append_right _ (List.mem_flatMap.mpr ⟨level, hlevel, hentry⟩))
  simp only [List.forall_mem_append] at hadmits hfunctions
  refine hpath.matches_fill ((Block.matches_self before hadmits.1 hfunctions.1).append ?_)
  exact .exchanged hpart (Block.matches_self after hadmits.2 hfunctions.2)

end ProgramBreeding

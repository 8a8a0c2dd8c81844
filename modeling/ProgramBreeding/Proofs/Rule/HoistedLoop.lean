import ProgramBreeding.Proofs.Rule.LengthLoop

/-!
# Loops after their lengths have been taken

Programs with a length taken before a loop, if the loop changes the length of no list.

## Main definitions

* `Stmt.IsSteady` — a loop that changes the length of no list.
* `Exchange.ofHoistedLength` — the loop exchanged in a program.
* `Rule.hoistLength_keptBy` — programs that complete are kept.

## Design notes

The rule looks for methods that resize a list and for calls of other functions in the body of the loop.  A list may
still grow under another name, by an augmented assignment, or in the condition, so a steady loop is more than the rule
asks for.
-/

namespace ProgramBreeding

/-- A loop changes the length of no list, calls built-in functions only, and gives no value to the variable whose
length it takes. -/
structure Stmt.IsSteady (t : Tree) (s : Stmt Label) : Prop where
  calm : ∀ node ∈ s.nodes, node.isCalm (Block.boundNames t.body) = true
  calls : ∀ node ∈ s.nodes, node.callsBuiltins (Block.boundNames t.body) = true
  keeps : ∀ name calls, t.fixedLength? s = some (name, calls) → ∀ node ∈ s.nodes, name ∉ node.boundNames

/-! ### Names taken -/

section

variable {taken : List String} {fresh : String}

theorem ofName?_of_mem_plainFunctions {f : String} (h : f ∈ plainFunctions) : Builtin.ofName? f ≠ none := by
  simp only [plainFunctions, List.mem_cons, List.not_mem_nil, or_false] at h
  rcases h with rfl | rfl | rfl | rfl | rfl | rfl | rfl | rfl <;> decide

/-- A variable whose name is not that of a built-in function makes no difference. -/
theorem Expr.yieldsNoList_cons (hfresh : Builtin.ofName? fresh = none) : ∀ e : Expr Label,
    e.yieldsNoList taken = true → e.yieldsNoList (fresh :: taken) = true
  | .constant .., _ => rfl
  | .unary .., _ => rfl
  | .compare .., _ => rfl
  | .binary _ op left right, h => by
    rw [yieldsNoList] at h ⊢
    split at h
    · rename_i hop
      rw [if_pos hop, Bool.or_eq_true]
      exact (Bool.or_eq_true_iff.mp h).imp (left.yieldsNoList_cons hfresh) (right.yieldsNoList_cons hfresh)
    · rename_i hop
      rw [if_neg hop, Bool.or_eq_true, Bool.and_eq_true]
      refine (Bool.or_eq_true_iff.mp h).imp_right fun h => ?_
      rw [Bool.and_eq_true] at h
      exact ⟨left.yieldsNoList_cons hfresh h.1, right.yieldsNoList_cons hfresh h.2⟩
  | .logic _ _ left right, h => by
    rw [yieldsNoList, Bool.and_eq_true] at h ⊢
    exact ⟨left.yieldsNoList_cons hfresh h.1, right.yieldsNoList_cons hfresh h.2⟩
  | .call _ (.name _ f) _, h => by
    simp only [yieldsNoList, Bool.and_eq_true, Bool.not_eq_true', List.contains_iff_mem, ← Bool.not_eq_true] at h ⊢
    refine ⟨h.1, fun hmem => ?_⟩
    rcases List.mem_cons.mp hmem with rfl | hmem
    · exact ofName?_of_mem_plainFunctions h.1 hfresh
    · exact h.2 hmem

theorem Node.isCalm_cons (hfresh : Builtin.ofName? fresh = none) {node : Node Label}
    (h : node.isCalm taken = true) : node.isCalm (fresh :: taken) = true := by
  unfold isCalm at h ⊢
  split at h
  · exact h
  · exact (Bool.or_eq_true_iff.mp h).elim (fun h => by simp [h]) fun h => by simp [Expr.yieldsNoList_cons hfresh _ h]
  · cases h
  · rfl

theorem Node.callsBuiltins_cons (hfresh : Builtin.ofName? fresh = none) {node : Node Label}
    (h : node.callsBuiltins taken = true) : node.callsBuiltins (fresh :: taken) = true := by
  unfold callsBuiltins at h ⊢
  split at h
  · split at h
    · rename_i f
      simp only [Bool.and_eq_true, Bool.not_eq_true', List.contains_iff_mem, ← Bool.not_eq_true] at h ⊢
      refine ⟨h.1, fun hmem => ?_⟩
      rcases List.mem_cons.mp hmem with rfl | hmem
      · rw [hfresh] at h
        cases h.1
      · exact h.2 hmem
    · rfl
    · cases h
  · rfl

end

/-! ### The loop in its program -/

/-- The exchange of statements of a function, or of the module, that keep something in a variable of a new name. -/
def Exchange.ofHoistedLength (functions : List Label) (names : String → Prop) (fresh : String)
    (part part' : Block Label) : Exchange where
  labels := .ofFunctions functions
  expr _ _ := False
  part _ p p' := p = part ∧ p' = part'
  body _ _ := False
  not_assignable := @not_assignable_of_none
  hidden _ y := y = fresh
  concealed y := y = fresh
  names := names

theorem Exchange.ofHoistedLength_keepsFunctions {functions : List Label} {names : String → Prop} {fresh : String}
    {part part' : Block Label} (hpart' : Block.functions part' = []) :
    (Exchange.ofHoistedLength functions names fresh part part').KeepsFunctions where
  part := by
    rintro _ _ _ ⟨rfl, rfl⟩
    rw [hpart']
    exact .nil
  body := False.elim

/-- Only the new variable may differ. -/
theorem View.Fits.eq_of_hides {functions : List Label} {names : String → Prop} {fresh y : String}
    {part part' : Block Label} {owner : Option Label} {V : View}
    (hV : V.Fits (.ofHoistedLength functions names fresh part part') owner) (hy : V.Hides y) : y = fresh := by
  rcases hy with hglobal | htop
  · exact hV.globals y hglobal
  · rw [hV.top] at htop
    exact htop

/-- What a node gives a value stands in it or in its target. -/
theorem Node.exists_writes_of_mem_boundNames {node : Node Label} {x : String} (h : x ∈ node.boundNames) :
    ∃ inner ∈ node.nodes, inner.Writes x := by
  have htarget {target : Expr Label} (h : x ∈ target.targetNames) : ∃ inner ∈ target.nodes, inner.Writes x := by
    cases target with
    | name l id =>
      obtain rfl := List.mem_singleton.mp h
      exact ⟨.expr (.name l x), List.mem_map_of_mem (Expr.self_mem_subterms _), .variable l⟩
    | _ => cases h
  unfold boundNames at h
  split at h
  · obtain ⟨inner, hinner, hwrites⟩ := htarget h
    exact ⟨inner, by simp [Node.nodes, Stmt.nodes, hinner], hwrites⟩
  · obtain ⟨inner, hinner, hwrites⟩ := htarget h
    exact ⟨inner, by simp [Node.nodes, Stmt.nodes, hinner], hwrites⟩
  · obtain rfl := List.mem_singleton.mp h
    exact ⟨_, List.mem_cons_self .., .loop ..⟩
  · rcases List.mem_cons.mp h with rfl | h
    · exact ⟨_, List.mem_cons_self .., .function ..⟩
    · exact ⟨_, List.mem_cons_self .., .parameter _ _ _ h⟩
  · obtain rfl := List.mem_singleton.mp h
    exact ⟨_, List.mem_map_of_mem (Expr.self_mem_subterms _), .comprehension ..⟩
  · cases h

section

variable {t t' : Tree} {label : Label} {hoisted : HoistedLength} {node : Node Label} {x : String}

theorem not_mem_boundNames (habsent : ¬ Block.Contains x t.body) (hnode : node ∈ Block.nodes t.body) :
    x ∉ node.boundNames := by
  intro hbound
  obtain ⟨inner, hinner, hwrites⟩ := Node.exists_writes_of_mem_boundNames hbound
  exact habsent (Block.contains_iff.mpr ⟨inner, Block.mem_nodes_trans hnode hinner, hwrites⟩)

/-- A name that does not stand in a program is read nowhere. -/
theorem ne_of_isName (habsent : ¬ Block.Contains x t.body) (hnode : node ∈ Block.nodes t.body) {y : String}
    (hy : node.isName y = true) : y ≠ x := by
  rintro rfl
  refine habsent (Block.contains_iff.mpr ⟨node, hnode, ?_⟩)
  cases node with
  | expr e =>
    obtain ⟨l, rfl⟩ := Expr.isName_iff.mp hy
    exact .variable l
  | stmt => cases hy

theorem Path.avoids_of_forall {hidden : Option Label → String → Prop} {path : Path} {owner : Option Label}
    (h : ∀ level ∈ path, ∀ node ∈ level.nodes, ∀ owner x, node.isName x = true → ¬ hidden owner x) :
    path.Avoids hidden owner := by
  induction path generalizing owner with
  | nil => exact trivial
  | cons level path ih =>
    refine ⟨fun node hnode x => h level (List.mem_cons_self ..) node hnode owner x, ih fun level' hlevel' => ?_⟩
    exact h level' (List.mem_cons_of_mem _ hlevel')

namespace HoistedLength.Edits

theorem body_eq (h : hoisted.Edits t label t') : t.body = hoisted.place.path.fill
    (hoisted.place.before ++ ([.whileLoop label hoisted.test hoisted.body] ++ hoisted.place.after)) := h.before

theorem mem_of_level (h : hoisted.Edits t label t') {level : Level} (hmem : level ∈ hoisted.place.path)
    (hnode : node ∈ level.nodes) : node ∈ Block.nodes t.body := by
  rw [h.body_eq]
  exact Path.mem_nodes_fill.mpr (.inr (.inl ⟨level, hmem, hnode⟩))

theorem mem_of_beside (h : hoisted.Edits t label t')
    (hnode : node ∈ Block.nodes hoisted.place.before ++ Block.nodes hoisted.place.after) :
    node ∈ Block.nodes t.body := by
  rw [h.body_eq]
  refine Path.mem_nodes_fill_of_mem ?_ _
  simp only [Block.nodes_append, List.mem_append] at hnode ⊢
  exact hnode.imp_right .inr

theorem mem_of_loop (h : hoisted.Edits t label t')
    (hnode : node ∈ (Stmt.whileLoop label hoisted.test hoisted.body).nodes) : node ∈ Block.nodes t.body := by
  rw [h.body_eq]
  refine Path.mem_nodes_fill_of_mem ?_ _
  simp only [Block.nodes_append, Block.nodes, List.mem_append]
  exact .inr (.inl (.inl hnode))

/-- What takes the length is a call with the variable measured. -/
theorem exists_call (h : hoisted.Edits t label t') : ∃ k k' k'',
    hoisted.call = .call k (.name k' "len") [.name k'' hoisted.list] ∧
      .name k'' hoisted.list ∈ hoisted.test.subterms := by
  obtain ⟨k, k', k'', hcall⟩ := Expr.exists_of_lengthOf? (by simpa using List.find?_some h.call)
  refine ⟨k, k', k'', hcall, Expr.mem_subterms_trans (List.mem_of_find?_eq_some h.call) ?_⟩
  simp [hcall, Expr.subterms, Expr.subtermsAll]

end HoistedLength.Edits

/-- The program after the length has been taken matches the one before, if the loop defines no functions. -/
theorem HoistedLength.Edits.matches (h : hoisted.Edits t label t') (hlabels : t.HasLabels)
    (habsent : ¬ Block.Contains hoisted.fresh t.body) (hnone : Block.functions hoisted.body = []) :
    (Program.ofTree t).Matches (.ofHoistedLength (Block.functionLabels t'.body)
      (fun y => y ∈ Block.boundNames t.body ∨ y = hoisted.fresh) hoisted.fresh
        [.whileLoop label hoisted.test hoisted.body] (hoisted.statements label)) (Program.ofTree t') := by
  let X := Exchange.ofHoistedLength (Block.functionLabels t'.body)
    (fun y => y ∈ Block.boundNames t.body ∨ y = hoisted.fresh) hoisted.fresh
      [.whileLoop label hoisted.test hoisted.body] (hoisted.statements label)
  have hbody' : t'.body = hoisted.place.path.fill
      (hoisted.place.before ++ (hoisted.statements label ++ hoisted.place.after)) := by
    rw [h.after, List.append_assoc]
  have hentries : ∀ entry ∈ functionsBeside hoisted.place.path hoisted.place.before hoisted.place.after,
      ∀ node ∈ Block.nodes entry.2.body, ∀ y, node.isName y = true → ¬ X.hidden (some entry.1) y := by
    intro entry hentry node hnode y hy
    obtain ⟨s, -, hnodes, hmem⟩ := exists_node_of_functionsBeside hentry
    have hstmt : .stmt s ∈ Block.nodes t.body := by
      rcases hmem with hmem | ⟨level, hpath, hmem⟩
      · exact h.mem_of_beside hmem
      · exact h.mem_of_level hpath hmem
    exact ne_of_isName habsent (Block.mem_nodes_trans hstmt (hnodes node hnode)) hy
  have hmatches : Block.Matches X none t.body t'.body := by
    have hself : ∀ l ∈ Block.functionLabels t'.body, X.labels.rel l l := fun l hl => ⟨rfl, hl⟩
    have hnames : ∀ node ∈ Block.nodes t.body, ∀ x ∈ node.boundNames, X.names x := fun node hnode x hx =>
      .inl (List.mem_flatMap.mpr ⟨node, hnode, hx⟩)
    have havoids : hoisted.place.path.Avoids X.hidden none := Path.avoids_of_forall
      fun level hmem node hnode _ x hx => ne_of_isName habsent (h.mem_of_level hmem hnode) hx
    have hreads : ∀ node ∈ Block.nodes hoisted.place.before ++ Block.nodes hoisted.place.after, ∀ x,
        node.isName x = true → ¬ X.hidden (hoisted.place.path.owner none) x := fun node hnode x hx =>
      ne_of_isName habsent (h.mem_of_beside hnode) hx
    rw [hbody'] at hself ⊢
    rw [h.body_eq] at hnames ⊢
    exact Block.matches_fill ⟨rfl, rfl⟩ havoids hreads hnames hself hentries
  have hfunctions : Block.functions (hoisted.statements label) = [] := by
    simp [HoistedLength.statements, Block.functions, Stmt.functions, hnone]
  exact Program.matches_ofTree hmatches (Exchange.ofHoistedLength_keepsFunctions hfunctions) hlabels
    (fun l l' hl => hl.1 ▸ hl.2) (fun _ _ => id) fun _ => id

/-- The names that are taken when the length has been, and those that the loop may change. -/
def HoistedLength.uses (hoisted : HoistedLength) (t : Tree) (s : Stmt Label) (hs : ∀ node ∈ s.nodes, node ∈ t.nodes) :
    NameUse where
  taken := hoisted.fresh :: Block.boundNames t.body
  changed y := ∃ node ∈ s.nodes, y ∈ node.boundNames
  mem_taken := by
    rintro y ⟨node, hnode, hy⟩
    exact .tail _ (List.mem_flatMap.mpr ⟨node, hs node hnode, hy⟩)

/-- In a steady loop, taking the length before makes no difference. -/
theorem HoistedLength.Edits.sim (h : hoisted.Edits t label t') (habsent : ¬ Block.Contains hoisted.fresh t.body)
    (hbuiltin : Builtin.ofName? hoisted.fresh = none) {calls : List (Expr Label)}
    (hfixed : t.fixedLength? (.whileLoop label hoisted.test hoisted.body) = some (hoisted.list, calls))
    (hsteady : (Stmt.whileLoop label hoisted.test hoisted.body).IsSteady t)
    (hnone : Block.functions hoisted.body = []) {S : Setting} {V : View} {functions : List Label}
    {names : String → Prop} {owner : Option Label} {part part' : Block Label}
    {call call' : Label → List Value → Exec Value}
    (hnames : ∀ y, S.names y ↔ y ∈ Block.boundNames t.body ∨ y = hoisted.fresh) (hextra : S.extra = 5)
    (hfaithful : ¬ S.faithful)
    (hcalls : CallsAlike S (Exchange.ofHoistedLength functions names hoisted.fresh part part').concealed call call')
    (hV : V.Fits (.ofHoistedLength functions names hoisted.fresh part part') owner) (P : Pairing) (c : Nat) :
    Sim S V P c c (Flow.Agree S.labels)
      (Block.exec ⟨S.budget, call⟩ [.whileLoop label hoisted.test hoisted.body])
      (Block.exec ⟨S.budget', call'⟩ (hoisted.statements label)) := by
  have hmem : ∀ node ∈ (Stmt.whileLoop label hoisted.test hoisted.body).nodes, node ∈ t.nodes :=
    fun node => h.mem_of_loop
  let N := hoisted.uses t _ hmem
  obtain ⟨_, _, _, heq, ⟨first, hfirst, hfirstLength⟩, -, hlen, -⟩ := fixedLength?_eq_some hfixed
  cases heq
  have htame : ∀ node ∈ (Stmt.whileLoop label hoisted.test hoisted.body).nodes, node.IsTame N False :=
    fun node hnode => ⟨Node.isCalm_cons hbuiltin (hsteady.calm node hnode), fun y hy => ⟨node, hnode, hy⟩,
      .inr (Node.callsBuiltins_cons hbuiltin (hsteady.calls node hnode))⟩
  have hreads (node : Node Label) (hnode : node ∈ (Stmt.whileLoop label hoisted.test hoisted.body).nodes) (y : String)
      (hy : node.isName y = true) : ¬ V.Hides y := fun hhidden =>
    ne_of_isName habsent (hmem node hnode) hy (hV.eq_of_hides hhidden)
  have hbound (node : Node Label) (hnode : node ∈ (Stmt.whileLoop label hoisted.test hoisted.body).nodes) (y : String)
      (hy : y ∈ node.boundNames) : S.names y :=
    (hnames y).mpr (.inl (List.mem_flatMap.mpr ⟨node, hmem node hnode, hy⟩))
  have htest (part : Expr Label) (hpart : part ∈ hoisted.test.subterms) :
      .expr part ∈ (Stmt.whileLoop label hoisted.test hoisted.body).nodes := by
    simp [Stmt.nodes, Expr.nodes, hpart]
  have hbody (node : Node Label) (hnode : node ∈ Block.nodes hoisted.body) :
      node ∈ (Stmt.whileLoop label hoisted.test hoisted.body).nodes := by
    simp [Stmt.nodes, hnode]
  obtain ⟨k, k', k'', hcall, hlist⟩ := h.exists_call
  have hshown : ¬ V.Hides hoisted.list := hreads _ (htest _ hlist) _ (beq_self_eq_true _)
  have hself (P : Pairing) (c : Nat) : Sim S V P c c (Flow.Agree S.labels)
      (Block.exec ⟨S.budget, call⟩ hoisted.body) (Block.exec ⟨S.budget', call'⟩ hoisted.body) := by
    refine Block.sim_self hcalls hV.isSound hoisted.body (fun node hnode => ⟨fun y hy htop => ?_, ?_⟩) ?_ P c
    · exact hreads node (hbody node hnode) y hy (.inr htop)
    · exact hbound node (hbody node hnode)
    · rw [hnone]
      exact fun entry hentry => absurd hentry List.not_mem_nil
  rw [HoistedLength.statements, hcall]
  refine Block.sim_hoistLength (N := N) hfaithful hextra ?_ ?_ ?_ ?_ ((hnames _).mpr (.inr rfl)) ?_ hshown ?_ ?_
    (fun node hnode => htame node (hbody node hnode)) hself P c
  · exact fun y hy => ((hnames y).mp hy).elim (.tail _) fun heq => heq ▸ List.mem_cons_self ..
  · rintro hmem
    rcases List.mem_cons.mp hmem with heq | hmem
    · rw [← heq] at hbuiltin
      exact absurd hbuiltin (Option.some_ne_none _)
    · exact hlen hmem
  · rintro ⟨node, hnode, hy⟩
    exact hsteady.keeps _ _ hfixed node hnode hy
  · rintro ⟨node, hnode, hy⟩
    exact not_mem_boundNames habsent (hmem node hnode) hy
  · rw [hV.top]
    exact rfl
  · exact fun part hpart => ⟨htame _ (htest part hpart), hbound _ (htest part hpart), hreads _ (htest part hpart)⟩
  · exact hfirstLength ▸ List.mem_map_of_mem hfirst

end

/-- A program is kept by the one with a length taken before a loop that changes the length of no list.  Nothing is
said of a function of the new name, which the program does not have. -/
theorem Rule.hoistLength_keptBy {t : Tree} (h : t.WellFormed) {label : Label}
    (hsite : label ∈ Rule.hoistLength.sites t)
    (hsteady : ∀ focus, Block.focus? label t.body = some focus → focus.stmt.IsSteady t) :
    ∃ (t' : Tree) (hoisted : HoistedLength), Rule.hoistLength.apply t label = .ok t' ∧ hoisted.Edits t label t' ∧
      (Program.ofTree t).KeptBy (· ≠ hoisted.fresh) (Program.ofTree t') := by
  obtain ⟨t', hresult⟩ := Option.isSome_iff_exists.mp ((isSome_hoistLength? h.hasLabels).mpr hsite)
  have happly : Rule.hoistLength.apply t label = .ok t' := by
    rw [Rule.apply, Rule.result?, hresult]
  obtain ⟨hoisted, hedits, hfresh, focus, calls, hfocus, hstmt, hfixed⟩ :=
    exists_edits_of_hoistLength? h.hasLabels hresult
  have hbuiltin := ofName?_freshName (Block.identifiers t.body) hoisted.list
  have hsearch := nameSearch_freshName (Block.identifiers t.body) ("n_" ++ hoisted.list)
  rw [← hfresh] at hsearch hbuiltin
  have habsent : ¬ Block.Contains hoisted.fresh t.body := fun hcontains =>
    hsearch.notMem (Block.mem_identifiers_iff.mpr hcontains)
  have hloop : (Stmt.whileLoop label hoisted.test hoisted.body).IsSteady t := hstmt ▸ hsteady focus hfocus
  rw [hstmt] at hfixed
  have hnone : Block.functions hoisted.body = [] := by
    refine List.eq_nil_iff_forall_not_mem.mpr fun entry hentry => ?_
    have hcalm := hloop.calm _ (.tail _ (List.mem_append_right _ (Block.mem_functions hentry)))
    cases hcalm
  have hmatches := hedits.matches h.hasLabels habsent hnone
  refine ⟨t', hoisted, happly, hedits, ?_⟩
  refine hmatches.keptBy 5 fun S hsuits hnames hextra hfaithful depth hcalls => ?_
  refine ⟨hsuits, hcalls, False.elim, ?_, False.elim⟩
  rintro owner _ _ V ⟨rfl, rfl⟩ hV P c
  exact hedits.sim habsent hbuiltin hfixed hloop hnone (fun y => hnames ▸ Iff.rfl) hextra hfaithful hcalls hV P c

/-- A function with a loop that replaces the items of a list. -/
def replacesItems : Tree := .ofBlock 0
  [.functionDef () "f" ["xs"]
    [.assign () (.name () "i") (.constant () (.int 0)),
      .whileLoop () (.compare () .lt (.name () "i") (.call () (.name () "len") [.name () "xs"]))
        [.assign () (.subscript () (.name () "xs") (.name () "i"))
            (.call () (.name () "abs") [.subscript () (.name () "xs") (.name () "i")]),
          .augAssign () (.name () "i") .add (.constant () (.int 1))],
      .ret () (some (.name () "xs"))]]

theorem Rule.hoistLength_keptBy_replacesItems : replacesItems.WellFormed ∧
    20 ∈ Rule.hoistLength.sites replacesItems ∧
      ∃ (t' : Tree) (hoisted : HoistedLength), Rule.hoistLength.apply replacesItems 20 = .ok t' ∧
        hoisted.Edits replacesItems 20 t' ∧
          (Program.ofTree replacesItems).KeptBy (· ≠ hoisted.fresh) (Program.ofTree t') := by
  have hwellFormed : replacesItems.WellFormed := Tree.ofBlock_wellFormed (by decide)
  have hsite : 20 ∈ Rule.hoistLength.sites replacesItems := by decide
  refine ⟨hwellFormed, hsite, Rule.hoistLength_keptBy hwellFormed hsite fun focus hfocus => ?_⟩
  cases hfocus
  refine ⟨by decide, by decide, fun name calls hfixed => ?_⟩
  cases hfixed
  decide

/-- A function with a loop that extends, under another name, the list whose length it tests. -/
def extendsUnderOtherName : Tree := .ofBlock 0
  [.functionDef () "f" ["n"]
    [.assign () (.name () "xs") (.list () [.constant () (.int 0)]),
      .assign () (.name () "ys") (.name () "xs"),
      .assign () (.name () "i") (.constant () (.int 0)),
      .whileLoop () (.compare () .lt (.name () "i") (.call () (.name () "len") [.name () "xs"]))
        [.ifElse () (.compare () .lt (.name () "i") (.constant () (.int 3)))
          [.augAssign () (.name () "ys") .add (.list () [.constant () (.int 0)])]
          [],
          .augAssign () (.name () "i") .add (.constant () (.int 1))],
      .ret () (some (.name () "i"))]]

/-- The same function with the length taken before the loop. -/
def takesLengthBefore : Tree := (Rule.hoistLength.result? extendsUnderOtherName 26).getD extendsUnderOtherName

/-- The function counts to four, and with the length taken before the loop, to one. -/
theorem not_hoistLength_keptBy : ¬ ∀ t : Tree, t.WellFormed → ∀ label ∈ Rule.hoistLength.sites t, ∀ t',
    Rule.hoistLength.apply t label = .ok t' → (Program.ofTree t).KeptBy (fun _ => True) (Program.ofTree t') := by
  intro hkept
  have hwellFormed : extendsUnderOtherName.WellFormed := Tree.ofBlock_wellFormed (by decide)
  have hsite : 26 ∈ Rule.hoistLength.sites extendsUnderOtherName := by decide
  let run (t : Tree) (fuel : UInt64) := ((Program.ofTree t).perform { fuel } "f" [.int 0]).run {}
  have hruns : (Program.answer (run extendsUnderOtherName 1000)).isOk = true ∧
      (Program.answer (run takesLengthBefore 0xFFFFFFFFFFFFFFFF)).toOption.map Datum.text ≠
        (Program.answer (run extendsUnderOtherName 1000)).toOption.map Datum.text := by
    decide +kernel
  have hboth := hkept extendsUnderOtherName hwellFormed 26 hsite takesLengthBefore rfl
  exact Program.not_keptBy trivial [.int 0] hruns.1 hruns.2 hboth

end ProgramBreeding

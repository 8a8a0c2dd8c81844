import ProgramBreeding.Proofs.Execution.Programs
import ProgramBreeding.Proofs.Tree.Path

/-!
# What an edited program does

An edit leaves most of a program as it is.  If what it puts in does what was there before, for no
more fuel, then the edited program does what the program did, for no more fuel.

## Main definitions

* `Program.ImprovedBy` — a program that does the same for no more fuel.
* `Exchange.ofPart`, `Exchange.ofExpr` — edits of a block and of an expression.
* `Program.Matches.improvedBy` — programs that match up to parts that do the same.
* `Path.matches_fill`, `Tree.HasLabels.refocus_matches` — the block around a statement replaced.
* `Exchange.ofParts`, `Tree.HasLabels.matches_refocus` — some statements exchanged for others.
* `Block.matches_substituteExpr` — an expression replaced.
-/

namespace ProgramBreeding

/-- Whatever comes of a call under a budget, the other program comes to the same value or error and
to the same output, and spends no more fuel; unless the fuel does not last for the first program. -/
def Program.ImprovedBy (p p' : Program) : Prop :=
  ∀ (fuel : UInt64) (name : String) (args : List Datum),
    let r := (p.perform { fuel } name args).run {}
    let r' := (p'.perform { fuel } name args).run {}
    Completes r → answer r' = answer r ∧ (endState r').output = (endState r).output ∧
      (endState r').used ≤ (endState r).used

/-- Every one of these functions stands for itself. -/
def Labelling.ofFunctions (functions : List Label) : Labelling where
  rel l l' := l = l' ∧ l ∈ functions
  unique := by
    rintro l _ k _ ⟨rfl, -⟩ ⟨rfl, -⟩
    exact Iff.rfl

/-- Some statements of a block are exchanged. -/
def Exchange.ofPart (labels : Labelling) (part : Block Label → Block Label → Prop) : Exchange where
  labels := labels
  expr _ _ := False
  part _ := part
  body _ _ := False
  not_assignable := @not_assignable_of_none

/-- An expression is exchanged. -/
def Exchange.ofExpr (labels : Labelling) (expr : Expr Label → Expr Label → Prop)
    (h : ∀ {e e'}, expr e e' → e.isAssignable = false ∧ e'.isAssignable = false) : Exchange where
  labels := labels
  expr := expr
  part _ _ _ := False
  body _ _ := False
  not_assignable := h

theorem Exchange.ofPart_isOpen (labels : Labelling) (part : Block Label → Block Label → Prop) :
    (Exchange.ofPart labels part).IsOpen :=
  ⟨fun _ _ => id, fun _ => trivial⟩

/-- Where nothing may differ, a program does the same in two runs. -/
theorem Exchange.IsOpen.sim {X : Exchange} (hX : X.IsOpen) {S : Setting} (hsuits : X.Suits S)
    {call call' : Label → List Value → Exec Value} (hcalls : CallsAlike S X.concealed call call') {owner : Option Label}
    {V : View} (hV : V.Fits X owner) {body : Block Label} (h : ∀ l ∈ Block.functionLabels body, S.labels.rel l l)
    (P : Pairing) (c : Nat) :
    Sim S V P c c (Flow.Agree S.labels) (Block.exec ⟨S.budget, call⟩ body) (Block.exec ⟨S.budget', call'⟩ body) := by
  have hadmits (n : Node Label) : n.Admits (.within S X.concealed V) none :=
    ⟨fun x _ hx => hX.hidden owner x (hV.top ▸ hx), fun x _ => hsuits.names (hX.names x)⟩
  refine Block.sim_self hcalls hV.isSound body (fun n _ => hadmits n) (fun entry hentry => ⟨?_, fun n _ => ?_⟩) P c
  · exact h _ (List.mem_map_of_mem hentry)
  · exact ⟨(hadmits n).reads, (hadmits n).names⟩

/-- Parts that do the same in any two runs make programs that do the same in any two runs. -/
theorem Program.Matches.improvedBy {X : Exchange} {p p' : Program} (h : p.Matches X p') (hopen : X.IsOpen)
    (hX : ∀ (S : Setting) call call', X.Suits S → CallsAlike S X.concealed call call' → X.Holds S call call') :
    p.ImprovedBy p' := by
  intro fuel name args r r' hends
  -- The same fuel for both, and nothing extra.
  let S : Setting := { labels := X.labels, fuel, fuel' := fuel, extra := 0, enough := by omega }
  have hsuits : X.Suits S := ⟨rfl, fun _ => trivial⟩
  obtain ⟨hanswer, houtput, hfuel⟩ :=
    Matches.answer (S := S) h hsuits trivial (fun _ => hX S _ _ hsuits) (hopen.hidden none name) rfl rfl hends
  refine ⟨hanswer, houtput, UInt64.le_iff_toNat_le.mpr ?_⟩
  have hsize := (endState r').used.toNat_lt_size
  replace hfuel : min ((endState r').used.toNat + 0) (UInt64.size - 1) ≤ (1 + 0) * (endState r).used.toNat + 0 := hfuel
  omega

/-! ### Statements replaced -/

/-- The function that the block in a hole belongs to, or the module. -/
def Hole.owner (outer : Option Label) : Hole → Option Label
  | .functionDef l _ _ => some l
  | _ => outer

/-- The names that a statement gives values itself, whatever its block. -/
def Hole.boundNames : Hole → List String
  | .functionDef _ name params => name :: params
  | .forLoop _ x _ => [x]
  | _ => []

/-- The functions of a statement that are not in the block. -/
def Hole.functions : Hole → List (Label × FunctionDef)
  | .thenBlock _ _ block | .elseBlock _ _ block => Block.functions block
  | _ => []

/-- The functions beside and below a statement with a hole. -/
def Level.functions (level : Level) : List (Label × FunctionDef) :=
  Block.functions level.before ++ level.hole.functions ++ Block.functions level.after

/-- The function that the block at the end of a path belongs to, or the module. -/
def Path.owner (outer : Option Label) : Path → Option Label
  | [] => outer
  | level :: path => Path.owner (level.hole.owner outer) path

section

variable {X : Exchange}

/-- What stands beside a block is left alone and matches itself. -/
structure Level.Admits (X : Exchange) (owner : Option Label) (level : Level) : Prop where
  nodes : ∀ n ∈ level.nodes, n.Admits X owner
  names : ∀ x ∈ level.hole.boundNames, X.names x
  functions : ∀ entry ∈ level.functions, X.Admits entry
  label : ∀ {l name params}, level.hole = .functionDef l name params → X.labels.rel l l

/-- What stands beside a path matches itself. -/
def Path.Admits (X : Exchange) : Option Label → Path → Prop
  | _, [] => True
  | owner, level :: path => level.Admits X owner ∧ Path.Admits X (level.hole.owner owner) path

theorem Level.Admits.matches_fill {level : Level} {owner : Option Label} (h : level.Admits X owner)
    {old new : Block Label} (hblock : Block.Matches X (level.hole.owner owner) old new) :
    Block.Matches X owner (level.fill old) (level.fill new) := by
  obtain ⟨before, hole, after⟩ := level
  obtain ⟨hnodes, hnames, hfunctions, hlabel⟩ := h
  simp only [Level.nodes, Level.functions, List.forall_mem_append] at hnodes hfunctions
  obtain ⟨⟨hbefore, hhole⟩, hafter⟩ := hnodes
  obtain ⟨⟨hfbefore, hfhole⟩, hfafter⟩ := hfunctions
  refine (Block.matches_self before hbefore hfbefore).append (.cons ?_ (Block.matches_self after hafter hfafter))
  cases hole with
  | functionDef l name params =>
    exact .functionDef (hlabel rfl) (hnames name (List.mem_cons_self ..))
      (fun x hx => hnames x (List.mem_cons_of_mem _ hx)) (.block hblock)
  | forLoop l x source =>
    exact .forLoop _ _ (hnames x (List.mem_cons_self ..)) (source.matches_self (Expr.forall_mem_nodes.mp hhole))
      (.block hblock)
  | whileLoop l test => exact .whileLoop _ _ (test.matches_self (Expr.forall_mem_nodes.mp hhole)) (.block hblock)
  | thenBlock l test orelse =>
    simp only [Hole.nodes, List.forall_mem_append] at hhole
    exact .ifElse _ _ (test.matches_self (Expr.forall_mem_nodes.mp hhole.1)) (.block hblock)
      (Block.matches_self orelse hhole.2 hfhole)
  | elseBlock l test body =>
    simp only [Hole.nodes, List.forall_mem_append] at hhole
    exact .ifElse _ _ (test.matches_self (Expr.forall_mem_nodes.mp hhole.1))
      (.block (Block.matches_self body hhole.2 hfhole)) hblock

/-- By induction on the path. -/
theorem Path.Admits.matches_fill {old new : Block Label} : ∀ {path : Path} {owner : Option Label},
    path.Admits X owner → Block.Matches X (path.owner owner) old new →
      Block.Matches X owner (path.fill old) (path.fill new)
  | [], _, _, hblock => hblock
  | _ :: _, _, h, hblock => h.1.matches_fill (h.2.matches_fill hblock)

theorem Hole.mem_functions_fill {hole : Hole} {block : Block Label} {l : Label} :
    l ∈ (hole.fill block).functions.map Prod.fst ↔ (∃ name params, hole = .functionDef l name params) ∨
      l ∈ hole.functions.map Prod.fst ∨ l ∈ Block.functionLabels block := by
  cases hole with
  | functionDef k name params => simp [fill, functions, Stmt.functions, Block.functionLabels, eq_comm]
  | _ => simp [fill, functions, Stmt.functions, Block.functionLabels, or_comm]

theorem Level.mem_functions_fill {level : Level} {block : Block Label} {l : Label} :
    l ∈ Block.functionLabels (level.fill block) ↔ (∃ name params, level.hole = .functionDef l name params) ∨
      l ∈ level.functions.map Prod.fst ∨ l ∈ Block.functionLabels block := by
  have hhole : l ∈ (level.hole.fill block).functions.map Prod.fst ↔
      (∃ name params, level.hole = .functionDef l name params) ∨
        l ∈ level.hole.functions.map Prod.fst ∨ l ∈ Block.functionLabels block := Hole.mem_functions_fill
  rw [Block.functionLabels, fill, Block.functions_append, Block.functions, functions]
  simp only [List.map_append, List.mem_append, hhole]
  grind

theorem Path.functionLabels_subset (block : Block Label) : ∀ path : Path,
    Block.functionLabels block ⊆ Block.functionLabels (path.fill block)
  | [], _, h => h
  | _ :: path, _, h => Level.mem_functions_fill.mpr (.inr (.inr (Path.functionLabels_subset block path h)))

/-- Where nothing may differ, it comes down to the functions. -/
theorem Exchange.IsOpen.admits_path (hX : X.IsOpen) (block : Block Label) : ∀ (path : Path) (owner : Option Label),
    (∀ l ∈ Block.functionLabels (path.fill block), X.labels.rel l l) → path.Admits X owner
  | [], _, _ => trivial
  | level :: path, owner, hself => by
    refine ⟨⟨fun n _ => hX.admits_node n, fun x _ => hX.names x, hX.admits fun l hl => ?_, fun hhole => ?_⟩, ?_⟩
    · exact hself l (Level.mem_functions_fill.mpr (.inr (.inl hl)))
    · exact hself _ (Level.mem_functions_fill.mpr (.inl ⟨_, _, hhole⟩))
    · exact hX.admits_path block path _ fun l hl => hself l (Level.mem_functions_fill.mpr (.inr (.inr hl)))

/-- A block that must not be empty has an empty statement. -/
theorem Tree.body_refocus (t : Tree) (focus : Focus) (block : Block Label) :
    (t.refocus focus block).body = Block.replaceAround focus.stmt.tag block t.body ∨
      block = [] ∧ (t.refocus focus block).body = Block.replaceAround focus.stmt.tag [.pass t.next] t.body := by
  unfold Tree.refocus
  split
  · rename_i hempty
    exact .inr ⟨List.isEmpty_iff.mp (Bool.and_eq_true_iff.mp hempty).1, rfl⟩
  · exact .inl rfl

/-- If the block around a statement matches another one, so does the tree with that block in its place. -/
theorem Tree.HasLabels.refocus_matches {t : Tree} (h : t.HasLabels) (hX : X.IsOpen) {label next : Label}
    {focus : Focus} (hfocus : Block.focus? label t.body = some focus) {block : Block Label}
    (hself : ∀ l ∈ Block.functionLabels ({ t with next }.refocus focus block).body, X.labels.rel l l)
    (hblock : ∀ owner, (∀ l ∈ Block.functionLabels block, X.labels.rel l l) →
      Block.Matches X owner focus.block block)
    (hpass : ∀ owner, block = [] → Block.Matches X owner focus.block [.pass next]) :
    Block.Matches X none t.body ({ t with next }.refocus focus block).body := by
  obtain ⟨path, hbody, -, hnew⟩ := Block.exists_path h.nodup hfocus
  -- A body that becomes empty has got an empty statement instead.
  rcases Tree.body_refocus { t with next } focus block with hbody' | ⟨hempty, hbody'⟩
  · rw [hbody'] at hself ⊢
    rw [hnew] at hself ⊢
    rw [hbody]
    refine (hX.admits_path block path none hself).matches_fill (hblock _ fun l hl => hself l ?_)
    exact path.functionLabels_subset block hl
  · rw [hbody'] at hself ⊢
    rw [hnew] at hself ⊢
    rw [hbody]
    exact (hX.admits_path _ path none hself).matches_fill (hpass _ hempty)

end

/-! ### Some statements exchanged for others -/

/-- These statements are exchanged for those, in a program with these functions. -/
def Exchange.ofParts (functions : List Label) (part part' : Block Label) : Exchange :=
  .ofPart (.ofFunctions functions) fun p p' => p = part ∧ p' = part'

section

variable {functions : List Label} {part part' : Block Label}

theorem Exchange.ofParts_isOpen (functions : List Label) (part part' : Block Label) :
    (Exchange.ofParts functions part part').IsOpen :=
  ofPart_isOpen _ _

/-- Statements that do the same can stand for each other. -/
theorem Exchange.ofParts_holds {S : Setting} {call call' : Label → List Value → Exec Value}
    (hsuits : (Exchange.ofParts functions part part').Suits S) (hcalls : CallsAlike S (fun _ => False) call call')
    (hsim : ∀ {V owner}, V.Fits (Exchange.ofParts functions part part') owner → ∀ P c,
      Sim S V P c c (Flow.Agree S.labels) (Block.exec ⟨S.budget, call⟩ part) (Block.exec ⟨S.budget', call'⟩ part')) :
    (Exchange.ofParts functions part part').Holds S call call' where
  suits := hsuits
  calls := hcalls
  expr := False.elim
  body := False.elim
  part := by
    rintro owner _ _ V ⟨rfl, rfl⟩ hV P c
    exact hsim hV P c

/-- With some statements of a block exchanged for others, which define no functions, a program matches
what it was. -/
theorem Tree.HasLabels.matches_refocus {t : Tree} (h : t.HasLabels) {label next : Label} {focus : Focus}
    (hfocus : Block.focus? label t.body = some focus) {before after : Block Label}
    (hblock : focus.block = before ++ (part ++ after)) (hpart' : part' ≠ [])
    (hnone : Block.functions part' = []) {t' : Tree}
    (ht' : { t with next }.refocus focus (before ++ (part' ++ after)) = t') :
    (Program.ofTree t).Matches (.ofParts (Block.functionLabels t'.body) part part') (Program.ofTree t') := by
  subst ht'
  let X := Exchange.ofParts
    (Block.functionLabels ({ t with next }.refocus focus (before ++ (part' ++ after))).body) part part'
  have hkeeps : X.KeepsFunctions := by
    refine ⟨?_, False.elim⟩
    rintro _ _ _ ⟨rfl, rfl⟩
    rw [hnone]
    exact .nil
  -- The path to the block is left alone, and so is what stands beside the statements.
  have hopen : X.IsOpen := Exchange.ofParts_isOpen _ _ _
  have hbody : Block.Matches X none t.body ({ t with next }.refocus focus (before ++ (part' ++ after))).body := by
    refine h.refocus_matches hopen hfocus (fun l hl => ⟨rfl, hl⟩) (fun owner hself => ?_) fun owner hempty => ?_
    · simp only [Block.functionLabels, Block.functions_append, List.map_append, List.mem_append] at hself
      rw [hblock]
      refine (hopen.block before fun l hl => hself l (.inl hl)).append ?_
      exact .exchanged ⟨rfl, rfl⟩ (hopen.block after fun l hl => hself l (.inr (.inr hl)))
    · exact absurd (List.append_eq_nil_iff.mp (List.append_eq_nil_iff.mp hempty).2).1 hpart'
  exact Program.matches_ofTree hbody hkeeps h (fun l l' hl => hl.1 ▸ hl.2) (fun _ _ => id) fun _ => id

end

/-! ### Expressions replaced -/

section

variable {X : Exchange} {owner : Option Label} {label : Label} {new : Expr Label}

theorem Expr.matches_substitute_of_below {e : Expr Label} (h : e.tag = label → X.expr e new)
    (hbelow : e.Matches X owner (Expr.substituteBelow label new e)) :
    e.Matches X owner (Expr.substitute label new e) := by
  rw [Expr.substitute_eq]
  split
  · rename_i htag
    exact .exchanged (h htag)
  · exact hbelow

mutual

/-- By induction on the expression, whose part with the label may be exchanged. -/
theorem Expr.matches_substitute (hX : X.IsOpen) : ∀ {e : Expr Label},
    (∀ part ∈ e.subterms, part.tag = label → X.expr part new) → e.Matches X owner (Expr.substitute label new e)
  | .name .., h => Expr.matches_substitute_of_below (h _ (Expr.self_mem_subterms _)) (.name _ _ (hX.hidden owner _))
  | .constant .., h => Expr.matches_substitute_of_below (h _ (Expr.self_mem_subterms _)) (.constant ..)
  | .list .., h => Expr.matches_substitute_of_below (h _ (Expr.self_mem_subterms _)) <|
    .list _ _ (Exprs.matches_substitute hX fun part hpart => h part (List.mem_cons_of_mem _ hpart))
  | .comprehension _ kind _ var _ _, h => Expr.matches_substitute_of_below (h _ (Expr.self_mem_subterms _)) <|
    .comprehension _ _ kind (hX.names var)
      (Expr.matches_substitute hX fun part hpart => h part (by simp [Expr.subterms, hpart]))
      (Expr.matches_substitute hX fun part hpart => h part (by simp [Expr.subterms, hpart]))
      (Cond.matches_substitute hX fun part hpart => h part (by simp [Expr.subterms, hpart]))
  | .binary _ op _ _, h => Expr.matches_substitute_of_below (h _ (Expr.self_mem_subterms _)) <|
    .binary _ _ op (Expr.matches_substitute hX fun part hpart => h part (by simp [Expr.subterms, hpart]))
      (Expr.matches_substitute hX fun part hpart => h part (by simp [Expr.subterms, hpart]))
  | .unary _ op _, h => Expr.matches_substitute_of_below (h _ (Expr.self_mem_subterms _)) <|
    .unary _ _ op (Expr.matches_substitute hX fun part hpart => h part (List.mem_cons_of_mem _ hpart))
  | .logic _ op _ _, h => Expr.matches_substitute_of_below (h _ (Expr.self_mem_subterms _)) <|
    .logic _ _ op (Expr.matches_substitute hX fun part hpart => h part (by simp [Expr.subterms, hpart]))
      (Expr.matches_substitute hX fun part hpart => h part (by simp [Expr.subterms, hpart]))
  | .compare _ op _ _, h => Expr.matches_substitute_of_below (h _ (Expr.self_mem_subterms _)) <|
    .compare _ _ op (Expr.matches_substitute hX fun part hpart => h part (by simp [Expr.subterms, hpart]))
      (Expr.matches_substitute hX fun part hpart => h part (by simp [Expr.subterms, hpart]))
  | .call .., h => Expr.matches_substitute_of_below (h _ (Expr.self_mem_subterms _)) <|
    (Expr.matches_substitute hX fun part hpart => h part (by simp [Expr.subterms, hpart])).call_of _ _
      (Exprs.matches_substitute hX fun part hpart => h part (by simp [Expr.subterms, hpart]))
  | .attribute _ _ attr, h => Expr.matches_substitute_of_below (h _ (Expr.self_mem_subterms _)) <|
    .attribute _ _ attr (Expr.matches_substitute hX fun part hpart => h part (List.mem_cons_of_mem _ hpart))
  | .subscript .., h => Expr.matches_substitute_of_below (h _ (Expr.self_mem_subterms _)) <|
    .subscript _ _ (Expr.matches_substitute hX fun part hpart => h part (by simp [Expr.subterms, hpart]))
      (Expr.matches_substitute hX fun part hpart => h part (by simp [Expr.subterms, hpart]))

theorem Exprs.matches_substitute (hX : X.IsOpen) : ∀ {es : List (Expr Label)},
    (∀ part ∈ Expr.subtermsAll es, part.tag = label → X.expr part new) →
      Exprs.Matches X owner es (Expr.substituteAll label new es)
  | [], _ => .nil
  | _ :: _, h => .cons (Expr.matches_substitute hX fun part hpart => h part (List.mem_append_left _ hpart))
    (Exprs.matches_substitute hX fun part hpart => h part (List.mem_append_right _ hpart))

theorem Cond.matches_substitute (hX : X.IsOpen) : ∀ {cond : Option (Expr Label)},
    (∀ part ∈ Expr.subtermsCond cond, part.tag = label → X.expr part new) →
      Cond.Matches X owner cond (Expr.substituteCond label new cond)
  | none, _ => .none
  | some _, h => .some (Expr.matches_substitute hX h)

end

mutual

theorem Stmt.matches_substituteExpr (hX : X.IsOpen) {owner : Option Label} : ∀ {s : Stmt Label},
    (∀ l ∈ s.functions.map Prod.fst, X.labels.rel l l) →
    (∀ part, .expr part ∈ s.nodes → part.tag = label → X.expr part new) →
      s.Matches X owner (s.mapExprs (Expr.substitute label new))
  | .functionDef _ name params _, hself, h =>
    .functionDef (hself _ (List.mem_cons_self ..)) (hX.names name) (fun x _ => hX.names x) <| .block <|
      Block.matches_substituteExpr hX (fun l hl => hself l (List.mem_cons_of_mem _ hl))
        fun part hpart => h part (List.mem_cons_of_mem _ hpart)
  | .ret _ none, _, _ => .ret ..
  | .ret _ (some _), _, h => .retValue _ _ (Expr.matches_substitute hX fun part hpart =>
    h part (by simp [Stmt.nodes, Expr.nodes, hpart]))
  | .assign .., _, h =>
    .assign _ _ (fun x _ => hX.names x)
      (Expr.matches_substitute hX fun part hpart => h part (by simp [Stmt.nodes, Expr.nodes, hpart]))
      (Expr.matches_substitute hX fun part hpart => h part (by simp [Stmt.nodes, Expr.nodes, hpart]))
  | .augAssign _ _ op _, _, h =>
    .augAssign _ _ op (fun x _ => hX.names x)
      (Expr.matches_substitute hX fun part hpart => h part (by simp [Stmt.nodes, Expr.nodes, hpart]))
      (Expr.matches_substitute hX fun part hpart => h part (by simp [Stmt.nodes, Expr.nodes, hpart]))
  | .forLoop _ var _ _, hself, h =>
    .forLoop _ _ (hX.names var)
      (Expr.matches_substitute hX fun part hpart => h part (by simp [Stmt.nodes, Expr.nodes, hpart])) <|
      .block (Block.matches_substituteExpr hX hself fun part hpart => h part (by simp [Stmt.nodes, hpart]))
  | .whileLoop .., hself, h =>
    .whileLoop _ _ (Expr.matches_substitute hX fun part hpart => h part (by simp [Stmt.nodes, Expr.nodes, hpart])) <|
      .block (Block.matches_substituteExpr hX hself fun part hpart => h part (by simp [Stmt.nodes, hpart]))
  | .ifElse .., hself, h => by
    simp only [Stmt.functions, List.map_append, List.mem_append] at hself
    refine .ifElse _ _ (Expr.matches_substitute hX fun part hpart => h part ?_)
      (.block (Block.matches_substituteExpr hX (fun l hl => hself l (.inl hl)) fun part hpart => h part ?_))
      (Block.matches_substituteExpr hX (fun l hl => hself l (.inr hl)) fun part hpart => h part ?_)
    all_goals simp [Stmt.nodes, Expr.nodes, hpart]
  | .expr .., _, h => .expr _ _ (Expr.matches_substitute hX fun part hpart =>
    h part (by simp [Stmt.nodes, Expr.nodes, hpart]))
  | .pass _, _, _ => .pass ..
  | .brk _, _, _ => .brk ..
  | .cont _, _, _ => .cont ..

/-- If the expression with a label may be exchanged, a block matches the one without it. -/
theorem Block.matches_substituteExpr (hX : X.IsOpen) {owner : Option Label} : ∀ {body : List (Stmt Label)},
    (∀ l ∈ (Block.functions body).map Prod.fst, X.labels.rel l l) →
      (∀ part, .expr part ∈ Block.nodes body → part.tag = label → X.expr part new) →
        Block.Matches X owner body (Block.substituteExpr label new body)
  | [], _, _ => .nil
  | _ :: _, hself, h => by
    simp only [Block.functions, List.map_append, List.mem_append] at hself
    exact .cons (Stmt.matches_substituteExpr hX (fun l hl => hself l (.inl hl)) fun part hpart =>
        h part (List.mem_append_left _ hpart))
      (Block.matches_substituteExpr hX (fun l hl => hself l (.inr hl)) fun part hpart =>
        h part (List.mem_append_right _ hpart))

end

mutual

theorem Stmt.functionLabels_mapExprs (f : Expr Label → Expr Label) : ∀ s : Stmt Label,
    (s.mapExprs f).functions.map Prod.fst = s.functions.map Prod.fst
  | .functionDef l _ _ body => congrArg (l :: ·) (Block.functionLabels_mapExprs f body)
  | .forLoop _ _ _ body | .whileLoop _ _ body => Block.functionLabels_mapExprs f body
  | .ifElse _ _ body orelse => by
    simp only [Stmt.mapExprs, Stmt.functions, List.map_append, Block.functionLabels_mapExprs f body,
      Block.functionLabels_mapExprs f orelse]
  | .ret .. | .assign .. | .augAssign .. | .expr .. | .pass _ | .brk _ | .cont _ => rfl

theorem Block.functionLabels_mapExprs (f : Expr Label → Expr Label) : ∀ body : List (Stmt Label),
    (Block.functions (Block.mapExprs f body)).map Prod.fst = (Block.functions body).map Prod.fst
  | [] => rfl
  | s :: rest => by
    simp only [Block.mapExprs, Block.functions, List.map_append, Stmt.functionLabels_mapExprs f s,
      Block.functionLabels_mapExprs f rest]

end

end

end ProgramBreeding

import ProgramBreeding.Execution.Session
import ProgramBreeding.Proofs.Execution.Matching
import ProgramBreeding.Proofs.Tree.WellFormed

/-!
# Matching programs are run alike

## Main definitions

* `Node.Admits`, `Block.matches_self` — programs match themselves if they read nothing that may differ.
* `Exchange.IsOpen` — nothing may differ.
* `FunctionsMatch`, `Block.Matches.functions` — functions of matching programs.
* `Program.Matches` — programs that match, with their functions.
* `Program.Matches.perform` — runs of matching programs.
-/

namespace ProgramBreeding

variable {X : Exchange} {owner : Option Label}

/-! ### Programs that match themselves -/

theorem Expr.isAttribute_eq_false {e : Expr Label} (h : e.isAssignable = false) : e.isAttribute = false := by
  cases e <;> first | rfl | cases h

/-- Calls match if what is called matches: a method is one of a matching value. -/
theorem Expr.Matches.call_of {callee callee' : Expr Label} (h : callee.Matches X owner callee') (l l' : Label)
    {args args' : List (Expr Label)} (hargs : Exprs.Matches X owner args args') :
    Expr.Matches X owner (.call l callee args) (.call l' callee' args') := by
  have hcallee := h
  cases h with
  | exchanged hexpr =>
    obtain ⟨hleft, hright⟩ := X.not_assignable hexpr
    exact .call l l' (Expr.isAttribute_eq_false hleft) (Expr.isAttribute_eq_false hright) hcallee hargs
  | «attribute» k k' attr he => exact .method l l' k k' attr he hargs
  | _ => exact .call l l' rfl rfl hcallee hargs

/-- What a node reads is the same in both runs, and what it gives a value is a name that variables have. -/
structure Node.Admits (X : Exchange) (owner : Option Label) (n : Node Label) : Prop where
  reads : ∀ x, n.isName x = true → ¬ X.hidden owner x
  names : ∀ x ∈ n.boundNames, X.names x

mutual

theorem Expr.matches_self : ∀ e : Expr Label, (∀ part ∈ e.subterms, (Node.expr part).Admits X owner) →
    e.Matches X owner e
  | .name _ id, h => by
    simp only [Expr.subterms, List.forall_mem_singleton] at h
    exact .name _ _ (h.reads id (beq_self_eq_true id))
  | .constant .., _ => .constant ..
  | .list _ items, h => by
    simp only [Expr.subterms, List.forall_mem_cons] at h
    exact .list _ _ (Exprs.matches_self items h.2)
  | .comprehension _ kind element x source cond, h => by
    simp only [Expr.subterms, List.forall_mem_cons, List.forall_mem_append] at h
    exact .comprehension _ _ kind (h.1.names x (List.mem_singleton_self x)) (element.matches_self h.2.1.1)
      (source.matches_self h.2.1.2) (Cond.matches_self cond h.2.2)
  | .binary _ op left right, h => by
    simp only [Expr.subterms, List.forall_mem_cons, List.forall_mem_append] at h
    exact .binary _ _ op (left.matches_self h.2.1) (right.matches_self h.2.2)
  | .unary _ op e, h => by
    simp only [Expr.subterms, List.forall_mem_cons] at h
    exact .unary _ _ op (e.matches_self h.2)
  | .logic _ op left right, h => by
    simp only [Expr.subterms, List.forall_mem_cons, List.forall_mem_append] at h
    exact .logic _ _ op (left.matches_self h.2.1) (right.matches_self h.2.2)
  | .compare _ op left right, h => by
    simp only [Expr.subterms, List.forall_mem_cons, List.forall_mem_append] at h
    exact .compare _ _ op (left.matches_self h.2.1) (right.matches_self h.2.2)
  | .call _ callee args, h => by
    simp only [Expr.subterms, List.forall_mem_cons, List.forall_mem_append] at h
    exact (callee.matches_self h.2.1).call_of _ _ (Exprs.matches_self args h.2.2)
  | .attribute _ e attr, h => by
    simp only [Expr.subterms, List.forall_mem_cons] at h
    exact .attribute _ _ attr (e.matches_self h.2)
  | .subscript _ e index, h => by
    simp only [Expr.subterms, List.forall_mem_cons, List.forall_mem_append] at h
    exact .subscript _ _ (e.matches_self h.2.1) (index.matches_self h.2.2)

theorem Exprs.matches_self : ∀ es : List (Expr Label),
    (∀ part ∈ Expr.subtermsAll es, (Node.expr part).Admits X owner) → Exprs.Matches X owner es es
  | [], _ => .nil
  | e :: rest, h => by
    simp only [Expr.subtermsAll, List.forall_mem_append] at h
    exact .cons (e.matches_self h.1) (Exprs.matches_self rest h.2)

theorem Cond.matches_self : ∀ cond : Option (Expr Label),
    (∀ part ∈ Expr.subtermsCond cond, (Node.expr part).Admits X owner) → Cond.Matches X owner cond cond
  | none, _ => .none
  | some e, h => .some (e.matches_self h)

end

/-- A function matches itself, if nothing is read in it that may differ. -/
def Exchange.Admits (X : Exchange) (entry : Label × FunctionDef) : Prop :=
  X.labels.rel entry.1 entry.1 ∧ ∀ n ∈ Block.nodes entry.2.body, n.Admits X (some entry.1)

mutual

theorem Stmt.matches_self {owner : Option Label} : ∀ s : Stmt Label, (∀ n ∈ s.nodes, n.Admits X owner) →
    (∀ entry ∈ s.functions, X.Admits entry) → s.Matches X owner s
  | .functionDef l name params body, h, hf => by
    simp only [Stmt.nodes, List.forall_mem_cons] at h
    simp only [Stmt.functions, List.forall_mem_cons] at hf
    exact .functionDef hf.1.1 (h.1.names name (List.mem_cons_self ..))
      (fun x hx => h.1.names x (List.mem_cons_of_mem _ hx)) (.block (Block.matches_self body hf.1.2 hf.2))
  | .ret _ none, _, _ => .ret ..
  | .ret _ (some e), h, _ => by
    simp only [Stmt.nodes, List.forall_mem_cons, Expr.forall_mem_nodes] at h
    exact .retValue _ _ (e.matches_self h.2)
  | .assign _ target e, h, _ => by
    simp only [Stmt.nodes, List.forall_mem_cons, List.forall_mem_append, Expr.forall_mem_nodes] at h
    exact .assign _ _ h.1.names (target.matches_self h.2.1) (e.matches_self h.2.2)
  | .augAssign _ target op e, h, _ => by
    simp only [Stmt.nodes, List.forall_mem_cons, List.forall_mem_append, Expr.forall_mem_nodes] at h
    exact .augAssign _ _ op h.1.names (target.matches_self h.2.1) (e.matches_self h.2.2)
  | .forLoop _ x source body, h, hf => by
    simp only [Stmt.nodes, List.forall_mem_cons, List.forall_mem_append, Expr.forall_mem_nodes] at h
    exact .forLoop _ _ (h.1.names x (List.mem_singleton_self x)) (source.matches_self h.2.1)
      (.block (Block.matches_self body h.2.2 hf))
  | .whileLoop _ test body, h, hf => by
    simp only [Stmt.nodes, List.forall_mem_cons, List.forall_mem_append, Expr.forall_mem_nodes] at h
    exact .whileLoop _ _ (test.matches_self h.2.1) (.block (Block.matches_self body h.2.2 hf))
  | .ifElse _ test body orelse, h, hf => by
    simp only [Stmt.nodes, List.forall_mem_cons, List.forall_mem_append, Expr.forall_mem_nodes] at h
    simp only [Stmt.functions, List.forall_mem_append] at hf
    exact .ifElse _ _ (test.matches_self h.2.1.1) (.block (Block.matches_self body h.2.1.2 hf.1))
      (Block.matches_self orelse h.2.2 hf.2)
  | .expr _ e, h, _ => by
    simp only [Stmt.nodes, List.forall_mem_cons, Expr.forall_mem_nodes] at h
    exact .expr _ _ (e.matches_self h.2)
  | .pass _, _, _ => .pass ..
  | .brk _, _, _ => .brk ..
  | .cont _, _, _ => .cont ..

theorem Block.matches_self {owner : Option Label} : ∀ body : List (Stmt Label),
    (∀ n ∈ Block.nodes body, n.Admits X owner) → (∀ entry ∈ Block.functions body, X.Admits entry) →
      Block.Matches X owner body body
  | [], _, _ => .nil
  | s :: rest, h, hf => by
    simp only [Block.nodes, List.forall_mem_append] at h
    simp only [Block.functions, List.forall_mem_append] at hf
    exact .cons (s.matches_self h.1 hf.1) (Block.matches_self rest h.2 hf.2)

end

/-- All variables have the same values, and there may be any. -/
structure Exchange.IsOpen (X : Exchange) : Prop where
  hidden : ∀ owner x, ¬ X.hidden owner x
  names : ∀ x, X.names x

/-- The labels of the functions that a block defines. -/
def Block.functionLabels (body : Block Label) : List Label := (Block.functions body).map Prod.fst

namespace Exchange.IsOpen

theorem admits_node (hX : X.IsOpen) (n : Node Label) : n.Admits X owner :=
  ⟨fun x _ => hX.hidden owner x, fun x _ => hX.names x⟩

theorem admits (hX : X.IsOpen) {entries : List (Label × FunctionDef)}
    (h : ∀ l ∈ entries.map Prod.fst, X.labels.rel l l) : ∀ entry ∈ entries, X.Admits entry :=
  fun _ hentry => ⟨h _ (List.mem_map_of_mem hentry), fun n _ => hX.admits_node n⟩

theorem expr (hX : X.IsOpen) (e : Expr Label) : e.Matches X owner e := e.matches_self fun _ _ => hX.admits_node _

theorem cond (hX : X.IsOpen) (c : Option (Expr Label)) : Cond.Matches X owner c c :=
  Cond.matches_self c fun _ _ => hX.admits_node _

theorem stmt (hX : X.IsOpen) (s : Stmt Label) (h : ∀ l ∈ s.functions.map Prod.fst, X.labels.rel l l) :
    s.Matches X owner s :=
  s.matches_self (fun _ _ => hX.admits_node _) (hX.admits h)

theorem block (hX : X.IsOpen) (body : Block Label) (h : ∀ l ∈ Block.functionLabels body, X.labels.rel l l) :
    Block.Matches X owner body body :=
  Block.matches_self body (fun _ _ => hX.admits_node _) (hX.admits h)

end Exchange.IsOpen

/-! ### Programs in two runs -/

/-- What may differ in the module may differ in the open scope, and no function reads it. -/
structure View.IsSound (concealed : String → Prop) (V : View) : Prop where
  globals : ∀ x, V.globals x → concealed x
  shown : ∀ x, V.globals x → V.top x

theorem View.Fits.isSound {V : View} (h : V.Fits X owner) : V.IsSound X.concealed :=
  ⟨h.globals, fun x hx => h.top ▸ h.shown x hx⟩

/-- Nothing is exchanged, while these variables may differ. -/
def Exchange.within (S : Setting) (concealed : String → Prop) (V : View) : Exchange where
  labels := S.labels
  expr _ _ := False
  part _ _ _ := False
  body _ _ := False
  not_assignable := @not_assignable_of_none
  hidden _ := V.top
  concealed := concealed
  names := S.names

section

variable {S : Setting} {concealed : String → Prop} {call call' : Label → List Value → Exec Value} {V : View}

theorem Exchange.within_holds (hcalls : CallsAlike S concealed call call') :
    (Exchange.within S concealed V).Holds S call call' where
  suits := ⟨rfl, id⟩
  calls := hcalls
  expr := False.elim
  part := False.elim
  body := False.elim

theorem View.IsSound.fits (h : V.IsSound concealed) : ∃ owner, V.Fits (.within S concealed V) owner := by
  by_cases hframes : V.frames = []
  · exact ⟨none, rfl, h.globals, h.shown, iff_of_true hframes rfl⟩
  · exact ⟨some 0, rfl, h.globals, h.shown, iff_of_false hframes (Option.some_ne_none 0)⟩

/-- An expression does the same in two runs, if it reads nothing that may differ. -/
theorem Expr.sim_self (hcalls : CallsAlike S concealed call call') (hV : V.IsSound concealed) (e : Expr Label)
    (h : ∀ part ∈ e.subterms, (Node.expr part).Admits (.within S concealed V) none) (P : Pairing) (c : Nat) :
    Sim S V P c c (Value.Agree S.labels) (e.eval ⟨S.budget, call⟩) (e.eval ⟨S.budget', call'⟩) := by
  obtain ⟨owner, hfits⟩ := hV.fits
  have hmatches : e.Matches (.within S concealed V) owner e := e.matches_self fun part hpart =>
    ⟨(h part hpart).reads, (h part hpart).names⟩
  exact hmatches.sim (Exchange.within_holds hcalls) hfits P c

/-- So does a block. -/
theorem Block.sim_self (hcalls : CallsAlike S concealed call call') (hV : V.IsSound concealed) (body : Block Label)
    (h : ∀ n ∈ Block.nodes body, n.Admits (.within S concealed V) none)
    (hfunctions : ∀ entry ∈ Block.functions body, (Exchange.within S concealed V).Admits entry) (P : Pairing)
    (c : Nat) : Sim S V P c c (Flow.Agree S.labels) (Block.exec ⟨S.budget, call⟩ body)
      (Block.exec ⟨S.budget', call'⟩ body) := by
  obtain ⟨owner, hfits⟩ := hV.fits
  have hmatches : Block.Matches (.within S concealed V) owner body body := Block.matches_self body
    (fun n hn => ⟨(h n hn).reads, (h n hn).names⟩) hfunctions
  exact hmatches.sim (Exchange.within_holds hcalls) hfits P c

end

theorem Block.Matches.append {b b' c c' : List (Stmt Label)} (h : Block.Matches X owner b b')
    (hc : Block.Matches X owner c c') : Block.Matches X owner (b ++ c) (b' ++ c') :=
  match h, hc with
  | .nil, hc => hc
  | .cons hs hrest, hc => .cons hs (hrest.append hc)
  | .exchanged hpart hrest, hc => by
    rw [List.append_assoc, List.append_assoc]
    exact .exchanged hpart (hrest.append hc)

/-! ### Functions -/

/-- Functions that are the same up to exchanged parts. -/
structure FunctionDef.Matches (X : Exchange) (owner : Option Label) (f f' : FunctionDef) : Prop where
  name : f'.name = f.name
  params : f'.params = f.params
  names : ∀ x ∈ f.params, X.names x
  body : Body.Matches X owner f.body f'.body

/-- Every function of the second program stands for one of the first. -/
def FunctionsMatch (X : Exchange) (functions functions' : List (Label × FunctionDef)) : Prop :=
  ∀ entry' ∈ functions', ∃ entry ∈ functions, X.labels.rel entry.1 entry'.1 ∧
    entry.2.Matches X (some entry.1) entry'.2

namespace FunctionsMatch

variable {fs fs' gs gs' : List (Label × FunctionDef)}

theorem nil : FunctionsMatch X fs [] := nofun

theorem append (h : FunctionsMatch X fs fs') (h' : FunctionsMatch X gs gs') :
    FunctionsMatch X (fs ++ gs) (fs' ++ gs') := by
  intro entry' hmem
  rcases List.mem_append.mp hmem with hmem | hmem
  · obtain ⟨entry, hentry, hmatch⟩ := h entry' hmem
    exact ⟨entry, List.mem_append_left _ hentry, hmatch⟩
  · obtain ⟨entry, hentry, hmatch⟩ := h' entry' hmem
    exact ⟨entry, List.mem_append_right _ hentry, hmatch⟩

theorem cons {entry entry' : Label × FunctionDef} (hl : X.labels.rel entry.1 entry'.1)
    (hentry : entry.2.Matches X (some entry.1) entry'.2) (h : FunctionsMatch X fs fs') :
    FunctionsMatch X (entry :: fs) (entry' :: fs') := by
  have hfirst : FunctionsMatch X [entry] [entry'] := fun _ hmem =>
    ⟨entry, List.mem_singleton_self _, List.mem_singleton.mp hmem ▸ ⟨hl, hentry⟩⟩
  exact hfirst.append h

end FunctionsMatch

/-- Parts that are exchanged bring in no functions of their own. -/
structure Exchange.KeepsFunctions (X : Exchange) : Prop where
  part : ∀ {owner p p'}, X.part owner p p' → FunctionsMatch X (Block.functions p) (Block.functions p')
  body : ∀ {b b'}, X.body b b' → FunctionsMatch X (Block.functions b) (Block.functions b')

mutual

theorem Stmt.functionsMatch_self : ∀ s : Stmt Label, (∀ n ∈ s.nodes, ∀ x ∈ n.boundNames, X.names x) →
    (∀ entry ∈ s.functions, X.Admits entry) → FunctionsMatch X s.functions s.functions
  | .functionDef l name params body, h, hf => by
    simp only [Stmt.nodes, List.forall_mem_cons] at h
    simp only [Stmt.functions, List.forall_mem_cons] at hf
    exact .cons hf.1.1 ⟨rfl, rfl, fun x hx => h.1 x (List.mem_cons_of_mem _ hx),
      .block (Block.matches_self body hf.1.2 hf.2)⟩ (Block.functionsMatch_self body h.2 hf.2)
  | .forLoop _ _ _ body, h, hf | .whileLoop _ _ body, h, hf => by
    simp only [Stmt.nodes, List.forall_mem_cons, List.forall_mem_append] at h
    exact Block.functionsMatch_self body h.2.2 hf
  | .ifElse _ _ body orelse, h, hf => by
    simp only [Stmt.nodes, List.forall_mem_cons, List.forall_mem_append] at h
    simp only [Stmt.functions, List.forall_mem_append] at hf
    exact .append (Block.functionsMatch_self body h.2.1.2 hf.1) (Block.functionsMatch_self orelse h.2.2 hf.2)
  | .ret .., _, _ | .assign .., _, _ | .augAssign .., _, _ | .expr .., _, _ | .pass _, _, _ | .brk _, _, _
  | .cont _, _, _ => .nil

/-- The functions of a program match themselves. -/
theorem Block.functionsMatch_self : ∀ body : List (Stmt Label),
    (∀ n ∈ Block.nodes body, ∀ x ∈ n.boundNames, X.names x) →
      (∀ entry ∈ Block.functions body, X.Admits entry) →
        FunctionsMatch X (Block.functions body) (Block.functions body)
  | [], _, _ => .nil
  | s :: rest, h, hf => by
    simp only [Block.nodes, List.forall_mem_append] at h
    simp only [Block.functions, List.forall_mem_append] at hf
    exact .append (s.functionsMatch_self h.1 hf.1) (Block.functionsMatch_self rest h.2 hf.2)

end

theorem Exchange.IsOpen.functionsMatch (hX : X.IsOpen) (body : Block Label)
    (h : ∀ l ∈ Block.functionLabels body, X.labels.rel l l) :
    FunctionsMatch X (Block.functions body) (Block.functions body) :=
  Block.functionsMatch_self body (fun _ _ x _ => hX.names x) (hX.admits h)

theorem Block.functions_append (c b : List (Stmt Label)) :
    Block.functions (b ++ c) = Block.functions b ++ Block.functions c := by
  induction b with
  | nil => rfl
  | cons s rest ih => rw [List.cons_append, Block.functions, Block.functions, ih, List.append_assoc]

mutual

theorem Stmt.Matches.functions (hX : X.KeepsFunctions) {owner : Option Label} {s s' : Stmt Label}
    (h : s.Matches X owner s') : FunctionsMatch X s.functions s'.functions :=
  match h with
  | .functionDef hl _ hparams h => .cons hl ⟨rfl, rfl, hparams, h⟩ (h.functions hX)
  | .forLoop _ _ _ _ h => h.functions hX
  | .whileLoop _ _ _ h => h.functions hX
  | .ifElse _ _ _ h horelse => .append (h.functions hX) (horelse.functions hX)
  | .ret .. | .retValue .. | .assign .. | .augAssign .. | .expr .. | .pass .. | .brk .. | .cont .. => .nil

theorem Block.Matches.functions (hX : X.KeepsFunctions) {owner : Option Label} {b b' : List (Stmt Label)}
    (h : Block.Matches X owner b b') : FunctionsMatch X (Block.functions b) (Block.functions b') :=
  match h with
  | .nil => .nil
  | .cons h hrest => .append (h.functions hX) (hrest.functions hX)
  | .exchanged h hrest => by
    rw [Block.functions_append, Block.functions_append]
    exact .append (hX.part h) (hrest.functions hX)

theorem Body.Matches.functions (hX : X.KeepsFunctions) {owner : Option Label} {b b' : List (Stmt Label)}
    (h : Body.Matches X owner b b') : FunctionsMatch X (Block.functions b) (Block.functions b') :=
  match h with
  | .block h => h.functions hX
  | .exchanged h => hX.body h

end

/-- Functions that stand for each other can be called in both programs. -/
def CanCall (X : Exchange) (functions functions' : List (Label × FunctionDef)) : Prop :=
  ∀ l l', X.labels.rel l l' → ∃ f f', functions.lookup l = some f ∧ functions'.lookup l' = some f' ∧
    f.Matches X (some l) f'

theorem lookup_eq_some_of_mem {fs : List (Label × FunctionDef)} (h : (fs.map Prod.fst).Nodup) {l : Label}
    {f : FunctionDef} (hmem : (l, f) ∈ fs) : fs.lookup l = some f := by
  induction fs with
  | nil => cases hmem
  | cons entry rest ih =>
    rw [List.map_cons, List.nodup_cons] at h
    rcases List.mem_cons.mp hmem with rfl | hmem
    · exact List.lookup_cons_self
    · have hne : l ≠ entry.1 := fun heq => h.1 (heq ▸ List.mem_map_of_mem hmem)
      rw [List.lookup_cons, beq_false_of_ne hne]
      exact ih h.2 hmem

theorem exists_lookup_of_mem {fs : List (Label × FunctionDef)} {l : Label} (h : l ∈ fs.map Prod.fst) :
    ∃ f, fs.lookup l = some f ∧ (l, f) ∈ fs := by
  obtain ⟨entry, hmem, rfl⟩ := List.mem_map.mp h
  obtain ⟨f, hf⟩ := Option.isSome_iff_exists.mp (List.lookup_isSome_iff.mpr ⟨entry, hmem, beq_self_eq_true _⟩)
  obtain ⟨before, after, rfl, -⟩ := List.lookup_eq_some_iff.mp hf
  exact ⟨f, hf, by simp⟩

theorem FunctionsMatch.canCall {fs fs' : List (Label × FunctionDef)} (h : FunctionsMatch X fs fs')
    (hnodup : (fs.map Prod.fst).Nodup) (hdefined : ∀ l l', X.labels.rel l l' → l' ∈ fs'.map Prod.fst) :
    CanCall X fs fs' := by
  intro l l' hl
  obtain ⟨f', hf', hmem'⟩ := exists_lookup_of_mem (hdefined l l' hl)
  obtain ⟨⟨k, f⟩, hmem, hk, hmatch⟩ := h _ hmem'
  -- Labels are one-to-one, so the function that was found is the one that was asked for.
  cases (X.labels.unique hk hl).mpr rfl
  exact ⟨f, f', lookup_eq_some_of_mem hnodup hmem, hf', hmatch⟩

mutual

theorem Stmt.sublist_functions : ∀ s : Stmt Label, (s.functions.map Prod.fst).Sublist (s.nodes.map Node.tag)
  | .functionDef l _ _ body => (Block.sublist_functions body).cons_cons l
  | .forLoop _ _ source body | .whileLoop _ source body => by
    simp only [Stmt.functions, Stmt.nodes, List.map_cons, List.map_append]
    exact .cons _ ((Block.sublist_functions body).trans (List.sublist_append_right ..))
  | .ifElse _ test body orelse => by
    simp only [Stmt.functions, Stmt.nodes, List.map_cons, List.map_append, List.append_assoc]
    exact .cons _ (((Block.sublist_functions body).append (Block.sublist_functions orelse)).trans
      (List.sublist_append_right ..))
  | .ret .. | .assign .. | .augAssign .. | .expr .. | .pass _ | .brk _ | .cont _ => List.nil_sublist _

theorem Block.sublist_functions : ∀ body : List (Stmt Label),
    ((Block.functions body).map Prod.fst).Sublist ((Block.nodes body).map Node.tag)
  | [] => .slnil
  | s :: rest => by
    simp only [Block.functions, Block.nodes, List.map_append]
    exact s.sublist_functions.append (Block.sublist_functions rest)

end

/-! ### Runs -/

section

variable {S : Setting}

/-- What may differ while functions run, no function reads. -/
def Exchange.Conceals (X : Exchange) : Prop := ∀ l x, X.concealed x → X.hidden (some l) x

/-- Parts that are exchanged do the same in two programs with these functions, whose calls do so already. -/
def Exchange.HoldsIn (X : Exchange) (S : Setting) (fs fs' : List (Label × FunctionDef)) : Prop :=
  ∀ depth, CallsAlike S X.concealed (callFunction fs S.budget depth) (callFunction fs' S.budget' depth) →
    X.Holds S (callFunction fs S.budget depth) (callFunction fs' S.budget' depth)

/-- What may differ in the body of a function is settled when it is called. -/
theorem Exchange.fits_push (hconceals : X.Conceals) (l : Label) {V : View} (hV : ∀ x, V.globals x → X.concealed x) :
    (V.push (X.hidden (some l))).Fits X (some l) where
  top := rfl
  globals := hV
  shown x hx := hconceals l x (hV x hx)
  level := iff_of_false (List.cons_ne_nil _ _) (Option.some_ne_none l)

/-- By induction on the calls that may still be nested. -/
theorem callFunction_alike {fs fs' : List (Label × FunctionDef)} (hsuits : X.Suits S) (hconceals : X.Conceals)
    (hX : X.HoldsIn S fs fs') (hcall : CanCall X fs fs') (depth : Nat) :
    CallsAlike S X.concealed (callFunction fs S.budget depth) (callFunction fs' S.budget' depth) := by
  induction depth with
  -- Too deep for both: the numbers of arguments are compared first.
  | zero =>
    intro V P l l' args args' _ hl hargs c
    obtain ⟨f, f', hf, hf', hname, hparams, -⟩ := hcall l l' (hsuits.labels ▸ hl)
    unfold callFunction
    rw [hf, hf']
    dsimp only
    rw [hname, hparams, ← hargs.length_eq]
    exact .ite .rfl (fun _ => .raise _) fun _ => .throw _
  | succ depth ih =>
    intro V P l l' args args' hV hl hargs c
    obtain ⟨f, f', hf, hf', hname, hparams, hnames, hbody⟩ := hcall l l' (hsuits.labels ▸ hl)
    unfold callFunction
    rw [hf, hf']
    dsimp only
    rw [hname, hparams, ← hargs.length_eq]
    refine .ite .rfl (fun _ => .raise _) fun _ => ?_
    have hfits := X.fits_push hconceals l hV
    have hframe : Scope.Agree S P (X.hidden (some l)) (f.params.zip args) (f.params.zip args') :=
      Scope.agree_zip hargs fun x hx => hsuits.names (hnames x hx)
    exact (Sim.inFrame hframe (hbody.sim (hX _ ih) hfits P c)).bind fun _ _ _ _ hflow => .pure hflow.result

end

/-- Programs that match, with functions that can be called in both. -/
structure Program.Matches (X : Exchange) (p p' : Program) : Prop where
  body : Block.Matches X none p.body p'.body
  functions : CanCall X p.functions p'.functions
  conceals : X.Conceals
  globals : ∀ x, X.hidden none x → X.concealed x

namespace Program

variable {S : Setting} {p p' : Program}

/-- Nothing runs yet but the statements of the module. -/
def start (X : Exchange) : View := ⟨X.hidden none, []⟩

theorem Matches.start_fits (h : p.Matches X p') : (start X).Fits X none :=
  ⟨rfl, h.globals, fun _ => id, iff_of_true rfl rfl⟩

/-- Two programs that match come to the same end, with the same result and the same output, whichever
function is called whose name does not stand for different values. -/
theorem Matches.perform (h : p.Matches X p') (hsuits : X.Suits S) (hX : X.HoldsIn S p.functions p'.functions)
    {name : String} (hname : ¬ X.hidden none name) (args : List Datum) :
    Sim S (start X) .empty S.extra 0 (fun _ => Eq) (p.perform S.budget name args) (p'.perform S.budget' name args) := by
  have hcalls := callFunction_alike hsuits h.conceals hX h.functions maxCallDepth
  refine Sim.bind (A := fun _ _ _ => True) (d := S.extra)
    ((h.body.sim (hX _ hcalls) h.start_fits _ _).bind fun _ _ _ _ _ => .pure trivial) fun P _ _ _ _ => ?_
  refine .get fun s s' hagree => ?_
  have hglobal := hagree.globals.values name hname
  revert hglobal
  generalize s.globals.get? name = found, s'.globals.get? name = found'
  rintro (hv | ⟨⟩)
  · cases hv with
    | function hl =>
      refine (Sim.ofData P args).bind fun Q _ vs vs' hvs => ?_
      have hcall := hcalls (start X) Q _ _ _ _ h.globals hl hvs 0
      rw [Nat.zero_add] at hcall
      exact Sim.bind hcall fun _ _ _ _ hresult => (Step.toDatum hresult).sim
    | _ => exact .raise _
  · exact .raise _

/-- Trees that match have programs that match. -/
theorem matches_ofTree {t t' : Tree} (h : Block.Matches X none t.body t'.body) (hX : X.KeepsFunctions)
    (hlabels : t.HasLabels) (hdefined : ∀ l l', X.labels.rel l l' → l' ∈ Block.functionLabels t'.body)
    (hconceals : X.Conceals) (hglobals : ∀ x, X.hidden none x → X.concealed x) :
    (ofTree t).Matches X (ofTree t') :=
  ⟨h, (h.functions hX).canCall ((Block.sublist_functions t.body).nodup hlabels.nodup) hdefined, hconceals, hglobals⟩

/-- What a run ends with. -/
def answer {α : Type} : EStateM.Result Stop State α → Except Stop α
  | .ok a _ => .ok a
  | .error e _ => .error e

/-- A run that does not end for want of fuel. -/
def Completes {α : Type} (r : EStateM.Result Stop State α) : Prop :=
  ∀ fuel, answer r ≠ .error (.outOfFuel fuel)

/-- Nothing is spent yet, so the second run starts with what it may spend more in the end. -/
theorem agree_start : State.Agree S (start X) .empty S.extra {} {} where
  globals := ⟨fun _ _ => .none, fun _ => absurd rfl, fun _ => absurd rfl⟩
  frames := .nil
  heap := ⟨False.elim, False.elim, nofun⟩
  output := rfl
  spent := UInt64.le_iff_toNat_le.mpr (Nat.zero_le _)
  fuel := show min (0 + S.extra) _ ≤ (1 + S.extra) * 0 + S.extra by omega

/-- What a run ends with if it does not run out of fuel, the other one ends with. -/
theorem Matches.answer (h : p.Matches X p') (hsuits : X.Suits S) (hfaithful : S.faithful)
    (hX : X.HoldsIn S p.functions p'.functions) {name : String} (hname : ¬ X.hidden none name) {args : List Datum}
    {r r' : EStateM.Result Stop State Datum} (hr : (p.perform S.budget name args).run {} = r)
    (hr' : (p'.perform S.budget' name args).run {} = r')
    (hends : Completes r) : answer r' = answer r ∧ (endState r').output = (endState r).output ∧
      FuelWithin S 0 (endState r).used (endState r').used := by
  have hend := h.perform hsuits hX hname args {} {} agree_start
  rw [hr, hr'] at hend
  cases r with
  | ok value s =>
    obtain ⟨value', s', rfl, Q, -, rfl, hagree⟩ := hend
    exact ⟨rfl, hagree.ends⟩
  | error e s =>
    have he : e.isOutOfFuel = false := by
      cases e <;> first | rfl | exact absurd rfl (hends _)
    obtain ⟨s', rfl, hsame⟩ := hend hfaithful he
    exact ⟨rfl, hsame⟩

end Program

end ProgramBreeding

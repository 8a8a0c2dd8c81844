import ProgramBreeding.Proofs.Rule.FreshName
import ProgramBreeding.Proofs.Rule.Sites

/-!
# Lengths taken before a loop

The rule that takes a length before a loop keeps it in a variable of a new name.  The name stands nowhere in the
tree, so the assignment captures no variable of the program, and after it the name is read at the calls only that
took the length.

## Main definitions

* `Expr.mapChildren` — an expression with something made of each operand.
* `Expr.hoist` — an expression with a variable in the place of each call that takes a length.
* `HoistedLength`, `HoistedLength.Edits` — a loop before and after its length is taken out of it.

## Main results

* `renameCalls_eq_hoist` — replacing the calls one after the other replaces each of them, and nothing else.
* `Expr.writes_hoist` — where the variable stands then.
* `Rule.hoistLength_captures_nothing` — what the rule makes at each node where it matches.
-/

namespace ProgramBreeding

/-! ### Operands -/

section

variable {α : Type}

theorem Expr.subterms_eq (e : Expr α) : e.subterms = e :: e.children.flatMap Expr.subterms := by
  cases e <;> simp [Expr.subterms, Expr.children, Expr.subtermsAll_eq, Expr.subtermsCond_eq]

theorem Expr.subterms_subset_of_mem_children {e part : Expr α} (h : part ∈ e.children) :
    part.subterms ⊆ e.subterms := by
  intro inner hinner
  rw [e.subterms_eq]
  exact .tail _ (List.mem_flatMap.mpr ⟨part, h, hinner⟩)

/-- What holds of an expression as soon as it holds of its operands holds of every expression. -/
theorem Expr.induct {P : Expr α → Prop} (h : ∀ e, (∀ part ∈ e.children, P part) → P e) (e : Expr α) : P e := by
  suffices hnode : ∀ node : Node α, ∀ e, node = .expr e → P e from hnode (.expr e) e rfl
  intro node
  induction node using Node.induct with
  | h node ih =>
    rintro e rfl
    exact h e fun part hpart => ih _ (List.mem_map_of_mem hpart) part rfl

/-- An expression with something made of each of its operands. -/
def Expr.mapChildren (f : Expr α → Expr α) : Expr α → Expr α
  | .name l id => .name l id
  | .constant l value => .constant l value
  | .list l items => .list l (items.map f)
  | .comprehension l kind element var source cond => .comprehension l kind (f element) var (f source) (cond.map f)
  | .binary l op left right => .binary l op (f left) (f right)
  | .unary l op operand => .unary l op (f operand)
  | .logic l op left right => .logic l op (f left) (f right)
  | .compare l op left right => .compare l op (f left) (f right)
  | .call l callee args => .call l (f callee) (args.map f)
  | .attribute l value attr => .attribute l (f value) attr
  | .subscript l value index => .subscript l (f value) (f index)

variable {f g : Expr α → Expr α} {e : Expr α}

@[simp] theorem Expr.tag_mapChildren (f : Expr α → Expr α) (e : Expr α) : (e.mapChildren f).tag = e.tag := by
  cases e <;> rfl

@[simp] theorem Expr.children_mapChildren (f : Expr α → Expr α) (e : Expr α) :
    (e.mapChildren f).children = e.children.map f := by
  cases e with
  | comprehension _ _ _ _ _ cond => cases cond <;> rfl
  | _ => rfl

theorem Expr.mapChildren_congr (h : ∀ part ∈ e.children, f part = g part) : e.mapChildren f = e.mapChildren g := by
  cases e with
  | comprehension _ _ _ _ _ cond => cases cond <;> simp_all [mapChildren, children]
  | _ => simp_all [mapChildren, children]

theorem Expr.mapChildren_id (e : Expr α) : e.mapChildren id = e := by
  cases e <;> simp [mapChildren]

theorem Expr.mapChildren_mapChildren (f g : Expr α → Expr α) (e : Expr α) :
    (e.mapChildren f).mapChildren g = e.mapChildren (g ∘ f) := by
  cases e <;> simp [mapChildren]

theorem Expr.writes_mapChildren {name : String} :
    Node.Writes name (.expr (e.mapChildren f)) ↔ Node.Writes name (.expr e) := by
  rw [Node.writes_iff, Node.writes_iff]
  cases e <;> rfl

theorem Expr.substituteBelow_eq_mapChildren {label : Label} {new : Expr Label} (e : Expr Label) :
    Expr.substituteBelow label new e = e.mapChildren (Expr.substitute label new) := by
  cases e with
  | comprehension _ _ _ _ _ cond => cases cond <;> rfl
  | _ => simp [substituteBelow, mapChildren, substituteAll_eq]

end

/-! ### Calls replaced by a variable -/

section

variable (list fresh : String) (reference : Label → Label)

mutual

/-- An expression with a variable in the place of each call that takes the length of a list.  The use of the
variable has a label that depends on that of the call. -/
def Expr.hoist : Expr Label → Expr Label
  | .name l id => .name l id
  | .constant l value => .constant l value
  | .list l items => .list l (hoistAll items)
  | .comprehension l kind element var source cond =>
    .comprehension l kind element.hoist var source.hoist (hoistCond cond)
  | .binary l op left right => .binary l op left.hoist right.hoist
  | .unary l op operand => .unary l op operand.hoist
  | .logic l op left right => .logic l op left.hoist right.hoist
  | .compare l op left right => .compare l op left.hoist right.hoist
  | .call l callee args =>
    if (Expr.call l callee args).lengthOf? = some list then .name (reference l) fresh
    else .call l callee.hoist (hoistAll args)
  | .attribute l value attr => .attribute l value.hoist attr
  | .subscript l value index => .subscript l value.hoist index.hoist

/-- Expressions with a variable in the place of each such call. -/
def Expr.hoistAll : List (Expr Label) → List (Expr Label)
  | [] => []
  | e :: rest => e.hoist :: hoistAll rest

/-- A condition with a variable in the place of each such call. -/
def Expr.hoistCond : Option (Expr Label) → Option (Expr Label)
  | none => none
  | some e => some e.hoist

end

variable {list fresh : String} {reference : Label → Label}

theorem Expr.hoistAll_eq (es : List (Expr Label)) :
    Expr.hoistAll list fresh reference es = es.map (Expr.hoist list fresh reference) := by
  induction es with
  | nil => rfl
  | cons e rest ih => rw [hoistAll, ih, List.map_cons]

/-- A call that takes the length is replaced, and every other expression is what becomes of its operands. -/
theorem Expr.hoist_eq (e : Expr Label) : e.hoist list fresh reference =
    if e.lengthOf? = some list then .name (reference e.tag) fresh
    else e.mapChildren (Expr.hoist list fresh reference) := by
  cases e with
  | comprehension _ _ _ _ _ cond => cases cond <;> rfl
  | list => exact congrArg (Expr.list _) (hoistAll_eq _)
  | call => rw [hoist, hoistAll_eq, mapChildren, tag]
  | _ => rfl

/-- By induction on the expression: a name that does not stand in it stands in what becomes of it where calls
were replaced. -/
theorem Expr.writes_hoist (e : Expr Label) : (∀ part ∈ e.subterms, ¬ Node.Writes fresh (.expr part)) →
    ∀ part ∈ (e.hoist list fresh reference).subterms, Node.Writes fresh (.expr part) →
      ∃ call ∈ e.subterms, call.lengthOf? = some list ∧ part = .name (reference call.tag) fresh := by
  induction e using Expr.induct with
  | h e ih =>
    intro hfresh part hpart hwrites
    rw [hoist_eq] at hpart
    split at hpart
    · rename_i hcall
      exact ⟨e, e.self_mem_subterms, hcall, List.mem_singleton.mp hpart⟩
    · rw [subterms_eq, children_mapChildren, List.flatMap_map] at hpart
      rcases List.mem_cons.mp hpart with rfl | hpart
      · exact absurd (writes_mapChildren.mp hwrites) (hfresh e e.self_mem_subterms)
      · obtain ⟨operand, hoperand, hpart⟩ := List.mem_flatMap.mp hpart
        have hsubset := subterms_subset_of_mem_children hoperand
        obtain ⟨call, hcall, hlength, rfl⟩ := ih operand hoperand
          (fun inner hinner => hfresh inner (hsubset hinner)) part hpart hwrites
        exact ⟨call, hsubset hcall, hlength, rfl⟩

end

/-! ### Calls replaced one after the other -/

section

variable {next : Label} {fresh : String} {calls : List (Expr Label)} {e : Expr Label}

theorem renameCalls_cons (call : Expr Label) (i : Nat) (calls : List (Expr Label × Nat)) (e : Expr Label) :
    renameCalls next fresh ((call, i) :: calls) e =
      renameCalls next fresh calls (Expr.substitute call.tag (.name (next + i) fresh) e) := rfl

/-- By induction on the calls: an expression that is not among them becomes what its operands become. -/
theorem renameCalls_eq_mapChildren : ∀ {calls : List (Expr Label × Nat)} {e : Expr Label},
    (∀ call ∈ calls, e.tag ≠ call.1.tag) →
      renameCalls next fresh calls e = e.mapChildren (renameCalls next fresh calls)
  | [], e, _ => e.mapChildren_id.symm
  | (call, i) :: calls, e, h => by
    obtain ⟨hcall, hcalls⟩ := List.forall_mem_cons.mp h
    rw [renameCalls_cons, Expr.substitute_eq, if_neg hcall, Expr.substituteBelow_eq_mapChildren,
      renameCalls_eq_mapChildren (by simpa using hcalls), Expr.mapChildren_mapChildren]
    rfl

/-- By induction on the calls: one of them is replaced when it is reached, and what replaces it stays. -/
theorem renameCalls_eq_name : ∀ {calls : List (Expr Label)} {i : Nat} {e : Expr Label},
    (∀ call ∈ calls, call.tag < next) → e.tag ∈ calls.map Expr.tag →
      renameCalls next fresh (calls.zipIdx i) e = .name (next + (i + (calls.map Expr.tag).idxOf e.tag)) fresh
  | call :: calls, i, e, hlt, hmem => by
    obtain ⟨-, hlt⟩ := List.forall_mem_cons.mp hlt
    rw [List.zipIdx_cons, renameCalls_cons, Expr.substitute_eq, List.map_cons]
    by_cases htag : e.tag = call.tag
    · have hstays : renameCalls next fresh (calls.zipIdx (i + 1)) (.name (next + i) fresh) =
          .name (next + i) fresh := by
        refine renameCalls_eq_mapChildren fun other hother heq => ?_
        have hother := hlt other.1 (List.fst_mem_of_mem_zipIdx hother)
        rw [← heq] at hother
        exact absurd hother (Nat.not_lt.mpr (Nat.le_add_right next i))
      rw [if_pos htag, htag, List.idxOf_cons_self]
      exact hstays
    · have hrest := (List.mem_cons.mp hmem).resolve_left htag
      have htag' : (Expr.substituteBelow call.tag (.name (next + i) fresh) e).tag = e.tag := Expr.tag_substituteBelow e
      have htail : renameCalls next fresh (calls.zipIdx (i + 1)) (Expr.substituteBelow call.tag _ e) =
          .name (next + (i + 1 + _)) fresh := renameCalls_eq_name hlt (htag'.symm ▸ hrest)
      rw [if_neg htag, htail, htag', List.idxOf_cons_ne _ (Ne.symm htag), Nat.add_assoc i 1, Nat.add_comm 1]

/-- Replacing the calls that take a length one after the other replaces each of them once. -/
theorem renameCalls_eq_hoist {test : Expr Label} {list : String} (hnodup : test.labels.Nodup)
    (hlt : ∀ l ∈ test.labels, l < next) (hcalls : calls = test.subterms.filter fun e => e.lengthOf? == some list) :
    renameCalls next fresh calls.zipIdx test =
      test.hoist list fresh fun l => next + (calls.map Expr.tag).idxOf l := by
  have hmem : ∀ part ∈ test.subterms, part.tag ∈ calls.map Expr.tag ↔ part.lengthOf? = some list := by
    intro part hpart
    rw [hcalls, List.mem_map]
    constructor
    · rintro ⟨call, hcall, htag⟩
      obtain ⟨hcall, hlength⟩ := List.mem_filter.mp hcall
      rw [← List.inj_on_of_nodup_map hnodup hcall hpart htag]
      exact beq_iff_eq.mp hlength
    · intro hlength
      exact ⟨part, List.mem_filter.mpr ⟨hpart, beq_iff_eq.mpr hlength⟩, rfl⟩
  have hbelow : ∀ call ∈ calls, call.tag < next := fun call hcall =>
    hlt _ (List.mem_map_of_mem (List.mem_filter.mp (hcalls ▸ hcall)).1)
  suffices hpart : ∀ part : Expr Label, part ∈ test.subterms → renameCalls next fresh calls.zipIdx part =
      part.hoist list fresh fun l => next + (calls.map Expr.tag).idxOf l from hpart test test.self_mem_subterms
  intro part
  induction part using Expr.induct with
  | h part ih =>
    intro hpart
    rw [Expr.hoist_eq]
    by_cases hlength : part.lengthOf? = some list
    · rw [if_pos hlength, renameCalls_eq_name hbelow ((hmem part hpart).mpr hlength), Nat.zero_add]
    · rw [if_neg hlength, renameCalls_eq_mapChildren]
      · refine Expr.mapChildren_congr fun operand hoperand => ih operand hoperand ?_
        exact Expr.mem_subterms_trans hpart (Expr.subterms_subset_of_mem_children hoperand operand.self_mem_subterms)
      · intro call hcall htag
        exact hlength ((hmem part hpart).mp (htag ▸ List.mem_map_of_mem (List.fst_mem_of_mem_zipIdx hcall)))

end

/-! ### The rule -/

/-- A name that does not stand in a program can stand in a new block of it only. -/
theorem Path.mem_nodes_of_writes {path : Path} {block new : Block Label} {node : Node Label} {name : String}
    (habsent : ¬ Block.Contains name (path.fill block)) (hnode : node ∈ Block.nodes (path.fill new))
    (hwrites : node.Writes name) : node ∈ Block.nodes new := by
  rw [Block.contains_iff] at habsent
  rcases mem_nodes_fill.mp hnode with ⟨outer, level, inner, rfl, rfl⟩ | hbeside | hnode
  · -- What a statement around the block says itself does not depend on the block.
    refine absurd ⟨_, mem_nodes_fill.mpr (.inl ⟨outer, level, inner, rfl, rfl⟩), ?_⟩ habsent
    rw [Node.writes_iff] at hwrites ⊢
    cases hhole : level.hole <;> rw [hhole] at hwrites <;> exact hwrites
  · exact absurd ⟨node, mem_nodes_fill.mpr (.inr (.inl hbeside)), hwrites⟩ habsent
  · exact hnode

/-- A length that is taken before a loop: the place of the loop, its condition and its body, the list and the call
that takes its length first, the variable that keeps it, and the labels of the new nodes. -/
structure HoistedLength where
  place : StmtPlace
  test : Expr Label
  body : Block Label
  list : String
  call : Expr Label
  fresh : String
  assignment : Label
  target : Label
  reference : Label → Label

namespace HoistedLength

/-- What stands in the place of the loop: the assignment and the loop with the variable in its condition. -/
def statements (label : Label) (hoisted : HoistedLength) : Block Label :=
  [.assign hoisted.assignment (.name hoisted.target hoisted.fresh) hoisted.call,
    .whileLoop label (hoisted.test.hoist hoisted.list hoisted.fresh hoisted.reference) hoisted.body]

/-- A tree becomes another one when a length is taken before the loop with a label. -/
structure Edits (hoisted : HoistedLength) (t : Tree) (label : Label) (t' : Tree) : Prop where
  call : hoisted.test.subterms.find? (fun e => e.lengthOf? == some hoisted.list) = some hoisted.call
  before : t.body = hoisted.place.fill (.whileLoop label hoisted.test hoisted.body)
  after : t'.body = hoisted.place.path.fill
    (hoisted.place.before ++ hoisted.statements label ++ hoisted.place.after)

/-- The variable where it is assigned, or in the place of one of the calls. -/
def IsVariable (hoisted : HoistedLength) (node : Node Label) : Prop :=
  node = .expr (.name hoisted.target hoisted.fresh) ∨
    ∃ call ∈ hoisted.test.subterms, call.lengthOf? = some hoisted.list ∧
      node = .expr (.name (hoisted.reference call.tag) hoisted.fresh)

/-- The search for a name ends, and what it finds stands nowhere in the tree, is not the name of a built-in function
and stands in the new tree where the length is kept and nowhere else. -/
structure CapturesNothing (hoisted : HoistedLength) (t t' : Tree) : Prop where
  search : NameSearch (Block.identifiers t.body) ("n_" ++ hoisted.list) ("n_" ++ hoisted.list) 2 hoisted.fresh
  absent : ¬ Block.Contains hoisted.fresh t.body
  notBuiltin : Builtin.ofName? hoisted.fresh = none
  only : ∀ node ∈ t'.nodes, node.Writes hoisted.fresh → hoisted.IsVariable node

variable {hoisted : HoistedLength} {t t' : Tree} {label : Label}

/-- A name that does not stand in a tree stands where it is put only. -/
theorem Edits.isVariable (h : hoisted.Edits t label t') (habsent : ¬ Block.Contains hoisted.fresh t.body)
    {node : Node Label} (hnode : node ∈ t'.nodes) (hwrites : node.Writes hoisted.fresh) : hoisted.IsVariable node := by
  have hpath := habsent
  rw [h.before] at hpath
  rw [Tree.nodes, h.after] at hnode
  have hold : ∀ node ∈ Block.nodes (hoisted.place.before ++ .whileLoop label hoisted.test hoisted.body ::
      hoisted.place.after), ¬ node.Writes hoisted.fresh := fun node hnode hwrites =>
    hpath (Block.contains_iff.mpr ⟨node, Path.mem_nodes_fill_of_mem hnode _, hwrites⟩)
  simp only [Block.nodes_append, Block.nodes, Stmt.nodes, List.mem_append, List.mem_cons] at hold
  have htest : ∀ part ∈ hoisted.test.subterms, ¬ Node.Writes hoisted.fresh (.expr part) := fun part hpart =>
    hold _ (.inr (.inl (.inr (.inl (List.mem_map_of_mem hpart)))))
  have hnode := Path.mem_nodes_of_writes hpath hnode hwrites
  simp only [statements, Block.nodes_append, Block.nodes, Stmt.nodes, List.mem_append, List.mem_cons] at hnode
  -- Only the target of the assignment and the condition are new; everything else stands in the old tree, too.
  rcases hnode with (hnode | (rfl | hnode | hnode) | (rfl | hnode | hnode) | hnil) | hnode
  · exact absurd hwrites (hold node (.inl hnode))
  · cases hwrites
  · exact .inl (List.mem_singleton.mp hnode)
  · obtain ⟨part, hpart, rfl⟩ := List.mem_map.mp hnode
    exact absurd hwrites (htest part (Expr.mem_subterms_trans (List.mem_of_find?_eq_some h.call) hpart))
  · cases hwrites
  · obtain ⟨part, hpart, rfl⟩ := List.mem_map.mp hnode
    obtain ⟨call, hcall, hlength, rfl⟩ := hoisted.test.writes_hoist htest part hpart hwrites
    exact .inr ⟨call, hcall, hlength, rfl⟩
  · exact absurd hwrites (hold node (.inr (.inl (.inr (.inr hnode)))))
  · cases hnil
  · exact absurd hwrites (hold node (.inr (.inr hnode)))

end HoistedLength

/-- Statements are put in as they are. -/
theorem Tree.body_refocus_of_ne_nil (t : Tree) (focus : Focus) {block : Block Label} (hne : block ≠ []) :
    (t.refocus focus block).body = Block.replaceAround focus.stmt.tag block t.body := by
  rw [Tree.refocus, List.isEmpty_eq_false_iff.mpr hne, Bool.false_and, if_neg Bool.false_ne_true]

/-- What the rule makes of a tree: the first of the calls is kept in a variable of a new name. -/
theorem exists_edits_of_hoistLength? {t t' : Tree} {label : Label} (h : t.HasLabels)
    (hresult : t.hoistLength? label = some t') : ∃ hoisted : HoistedLength, hoisted.Edits t label t' ∧
      hoisted.fresh = freshName (Block.identifiers t.body) ("n_" ++ hoisted.list) ∧
        ∃ focus calls, Block.focus? label t.body = some focus ∧
          focus.stmt = .whileLoop label hoisted.test hoisted.body ∧
            t.fixedLength? focus.stmt = some (hoisted.list, calls) := by
  obtain ⟨⟨before, s, after, required⟩, hfocus, hresult⟩ := Option.bind_eq_some_iff.mp hresult
  obtain ⟨⟨list, calls⟩, hfixed, hresult⟩ := Option.bind_eq_some_iff.mp hresult
  obtain ⟨l, test, body, rfl, -, hcalls, -⟩ := fixedLength?_eq_some hfixed
  obtain ⟨rfl, -⟩ := Block.mem_of_focus? hfocus
  obtain ⟨path, hbody, -, hreplace⟩ := Block.exists_path h.nodup hfocus
  cases calls with
  | nil => cases hresult
  | cons first rest =>
    replace hresult := Option.some.inj hresult
    let hoisted : HoistedLength := {
      place := ⟨path, before, after⟩
      test, body, list
      call := first
      fresh := freshName (Block.identifiers t.body) ("n_" ++ list)
      assignment := t.next + (first :: rest).length + 1
      target := t.next + (first :: rest).length
      reference := fun l => t.next + ((first :: rest).map Expr.tag).idxOf l }
    let place : ExprPlace := ⟨hoisted.place, .whileTest l body, []⟩
    obtain ⟨hnodup, hlt⟩ := h.labels_fill (show t.body = place.fill test from hbody)
    have hfirst : test.subterms.find? (fun e => e.lengthOf? == some list) = some first := by
      rw [← List.head?_filter, ← hcalls, List.head?_cons]
    refine ⟨hoisted, ⟨hfirst, hbody, ?_⟩, rfl, _, _, hfocus, rfl, hfixed⟩
    rw [HoistedLength.statements, ← renameCalls_eq_hoist hnodup hlt hcalls, List.append_assoc, ← hresult,
      Tree.body_refocus_of_ne_nil _ _ (by simp)]
    exact hreplace _

/-- Wherever the rule matches, it takes a length before a loop and captures nothing. -/
theorem Rule.hoistLength_captures_nothing {t : Tree} {label : Label} (h : t.WellFormed)
    (hsite : label ∈ Rule.hoistLength.sites t) : ∃ (t' : Tree) (hoisted : HoistedLength),
      Rule.hoistLength.apply t label = .ok t' ∧ hoisted.Edits t label t' ∧ hoisted.CapturesNothing t t' := by
  obtain ⟨t', hresult⟩ := Option.isSome_iff_exists.mp ((isSome_hoistLength? h.hasLabels).mpr hsite)
  have happly : Rule.hoistLength.apply t label = .ok t' := by
    rw [Rule.apply, Rule.result?, hresult]
  obtain ⟨hoisted, hedits, hfresh, -⟩ := exists_edits_of_hoistLength? h.hasLabels hresult
  have hsearch := nameSearch_freshName (Block.identifiers t.body) ("n_" ++ hoisted.list)
  have hbuiltin := ofName?_freshName (Block.identifiers t.body) hoisted.list
  rw [← hfresh] at hsearch hbuiltin
  have habsent : ¬ Block.Contains hoisted.fresh t.body := fun hcontains =>
    hsearch.notMem (Block.mem_identifiers_iff.mpr hcontains)
  exact ⟨t', hoisted, happly, hedits, hsearch, habsent, hbuiltin, fun node hnode hwrites =>
    hedits.isVariable habsent hnode hwrites⟩

/-- A function that has a variable of the name that comes first for the length of `xs`. -/
def takenLengthName : Tree := .ofBlock 0
  [.functionDef () "f" ["xs"]
    [.assign () (.name () "n_xs") (.constant () (.int 1)),
      .assign () (.name () "i") (.constant () (.int 0)),
      .whileLoop () (.compare () .lt (.name () "i") (.call () (.name () "len") [.name () "xs"]))
        [.augAssign () (.name () "i") .add (.name () "n_xs")],
      .ret () (some (.name () "i"))]]

theorem Rule.hoistLength_captures_nothing_takenLengthName :
    takenLengthName.WellFormed ∧ 14 ∈ Rule.hoistLength.sites takenLengthName ∧
      ∃ (t' : Tree) (hoisted : HoistedLength), Rule.hoistLength.apply takenLengthName 14 = .ok t' ∧
        hoisted.Edits takenLengthName 14 t' ∧ hoisted.CapturesNothing takenLengthName t' := by
  have hwellFormed : takenLengthName.WellFormed := Tree.ofBlock_wellFormed (by decide)
  have hsite : 14 ∈ Rule.hoistLength.sites takenLengthName := by decide
  exact ⟨hwellFormed, hsite, Rule.hoistLength_captures_nothing hwellFormed hsite⟩

end ProgramBreeding

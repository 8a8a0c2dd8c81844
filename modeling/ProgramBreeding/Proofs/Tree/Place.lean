import ProgramBreeding.Proofs.Tree.Sites
import ProgramBreeding.Proofs.Tree.Total

/-!
# Places of nodes

Every node of a program stands in one place: at the end of a path through the statements around it and, if
it is an expression, through the expressions that it is a part of.  A place can be filled with any node of
its kind, and replacing a node by its label fills the place of the node with another one.

## Main definitions

* `ExprHole`, `StmtHole` — an expression that has lost an operand, a statement that has lost one of its own
  expressions.
* `StmtPlace`, `ExprPlace` — where a statement stands, where an expression stands.
* `StmtPlace.fill`, `ExprPlace.fill` — the program with a node in the place.
* `Tree.HasLabels.exists_stmtPlace`, `Tree.HasLabels.exists_exprPlace` — every node has a place.
* `StmtPlace.substituteStmt_fill`, `ExprPlace.substituteExpr_fill_tag` — replacing what stands in it.

## Design notes

A `Hole` is a statement that has lost a whole block.  A statement is one of the statements of such a block,
so its place is a path with the statements beside it.
-/

namespace ProgramBreeding

/-- The labels of a node and those below it. -/
def Node.labels (node : Node Label) : List Label := node.nodes.map Node.tag

theorem Node.labels_eq (node : Node Label) : node.labels = node.tag :: node.children.flatMap Node.labels := by
  rw [Node.labels, node.nodes_eq, List.map_cons, List.map_flatMap]
  rfl

theorem Node.labels_expr (e : Expr Label) : (Node.expr e).labels = e.labels := e.map_tag_nodes

/-- The labels of what stands among other things are theirs and its own. -/
theorem perm_cons_flatMap {β : Type} (own : β → List Label) (tag : Label) (before after : List β) (b : β) :
    (tag :: (before ++ b :: after).flatMap own).Perm ((tag :: (before ++ after).flatMap own) ++ own b) := by
  refine List.perm_iff_count.mpr fun l => ?_
  simp only [List.flatMap_append, List.flatMap_cons, List.cons_append, List.count_cons, List.count_append]
  omega

/-! ### Expressions without an operand -/

/-- An expression that has lost one of its operands. -/
inductive ExprHole where
  | listItem (l : Label) (before after : List (Expr Label))
  | comprehensionElement (l : Label) (kind : ComprehensionKind) (var : String) (source : Expr Label)
      (cond : Option (Expr Label))
  | comprehensionSource (l : Label) (kind : ComprehensionKind) (element : Expr Label) (var : String)
      (cond : Option (Expr Label))
  | comprehensionCond (l : Label) (kind : ComprehensionKind) (element : Expr Label) (var : String)
      (source : Expr Label)
  | binaryLeft (l : Label) (op : BinaryOp) (right : Expr Label)
  | binaryRight (l : Label) (op : BinaryOp) (left : Expr Label)
  | unaryOperand (l : Label) (op : UnaryOp)
  | logicLeft (l : Label) (op : LogicOp) (right : Expr Label)
  | logicRight (l : Label) (op : LogicOp) (left : Expr Label)
  | compareLeft (l : Label) (op : CompareOp) (right : Expr Label)
  | compareRight (l : Label) (op : CompareOp) (left : Expr Label)
  | callCallee (l : Label) (args : List (Expr Label))
  | callArgument (l : Label) (callee : Expr Label) (before after : List (Expr Label))
  | attributeValue (l : Label) (attr : String)
  | subscriptValue (l : Label) (index : Expr Label)
  | subscriptIndex (l : Label) (value : Expr Label)

namespace ExprHole

/-- The expression with an operand in its place. -/
def fill (e : Expr Label) : ExprHole → Expr Label
  | listItem l before after => .list l (before ++ e :: after)
  | comprehensionElement l kind var source cond => .comprehension l kind e var source cond
  | comprehensionSource l kind element var cond => .comprehension l kind element var e cond
  | comprehensionCond l kind element var source => .comprehension l kind element var source (some e)
  | binaryLeft l op right => .binary l op e right
  | binaryRight l op left => .binary l op left e
  | unaryOperand l op => .unary l op e
  | logicLeft l op right => .logic l op e right
  | logicRight l op left => .logic l op left e
  | compareLeft l op right => .compare l op e right
  | compareRight l op left => .compare l op left e
  | callCallee l args => .call l e args
  | callArgument l callee before after => .call l callee (before ++ e :: after)
  | attributeValue l attr => .attribute l e attr
  | subscriptValue l index => .subscript l e index
  | subscriptIndex l value => .subscript l value e

/-- The label of the expression. -/
def label : ExprHole → Label
  | listItem l .. | comprehensionElement l .. | comprehensionSource l .. | comprehensionCond l ..
  | binaryLeft l .. | binaryRight l .. | unaryOperand l .. | logicLeft l .. | logicRight l ..
  | compareLeft l .. | compareRight l .. | callCallee l .. | callArgument l .. | attributeValue l ..
  | subscriptValue l .. | subscriptIndex l .. => l

/-- The operands before the one that is lost. -/
def before : ExprHole → List (Expr Label)
  | listItem _ before _ => before
  | comprehensionSource _ _ element _ _ => [element]
  | comprehensionCond _ _ element _ source => [element, source]
  | binaryRight _ _ left | logicRight _ _ left | compareRight _ _ left => [left]
  | callArgument _ callee before _ => callee :: before
  | subscriptIndex _ value => [value]
  | comprehensionElement .. | binaryLeft .. | unaryOperand .. | logicLeft .. | compareLeft .. | callCallee ..
  | attributeValue .. | subscriptValue .. => []

/-- The operands after the one that is lost. -/
def after : ExprHole → List (Expr Label)
  | listItem _ _ after => after
  | comprehensionElement _ _ _ source cond => source :: cond.toList
  | comprehensionSource _ _ _ _ cond => cond.toList
  | binaryLeft _ _ right | logicLeft _ _ right | compareLeft _ _ right => [right]
  | callCallee _ args => args
  | callArgument _ _ _ after => after
  | subscriptValue _ index => [index]
  | comprehensionCond .. | binaryRight .. | unaryOperand .. | logicRight .. | compareRight ..
  | attributeValue .. | subscriptIndex .. => []

/-- The labels outside of the operand. -/
def labels (hole : ExprHole) : List Label :=
  hole.label :: (hole.before ++ hole.after).flatMap Expr.labels

variable {hole : ExprHole} {e : Expr Label}

theorem tag_fill (hole : ExprHole) (e : Expr Label) : (hole.fill e).tag = hole.label := by
  cases hole <;> rfl

theorem children_fill (hole : ExprHole) (e : Expr Label) :
    (hole.fill e).children = hole.before ++ e :: hole.after := by
  cases hole <;> rfl

theorem labels_fill (hole : ExprHole) (e : Expr Label) : (hole.fill e).labels.Perm (hole.labels ++ e.labels) := by
  have hlabels : (hole.fill e).labels = hole.label :: (hole.before ++ e :: hole.after).flatMap Expr.labels := by
    rw [← Node.labels_expr, Node.labels_eq, ← children_fill, Node.children, List.flatMap_map]
    simp only [Node.labels_expr, Node.tag, tag_fill]
  rw [hlabels]
  exact perm_cons_flatMap Expr.labels hole.label hole.before hole.after e

/-- What stands in a slot of an expression fills the hole that it leaves there. -/
theorem exists_fill {outer : Expr Label} (h : e ∈ outer.children) : ∃ hole : ExprHole, outer = hole.fill e := by
  cases outer with
  | name | constant => cases h
  | list l items =>
    obtain ⟨before, after, rfl⟩ := List.append_of_mem (show e ∈ items from h)
    exact ⟨listItem l before after, rfl⟩
  | comprehension l kind element var source cond =>
    rcases List.mem_cons.mp h with rfl | h
    · exact ⟨comprehensionElement l kind var source cond, rfl⟩
    · rcases List.mem_cons.mp h with rfl | h
      · exact ⟨comprehensionSource l kind element var cond, rfl⟩
      · rw [Option.mem_toList.mp h]
        exact ⟨comprehensionCond l kind element var source, rfl⟩
  | binary l op left right =>
    rcases List.mem_pair.mp h with rfl | rfl
    · exact ⟨binaryLeft l op right, rfl⟩
    · exact ⟨binaryRight l op left, rfl⟩
  | unary l op operand =>
    rw [← List.mem_singleton.mp h]
    exact ⟨unaryOperand l op, rfl⟩
  | logic l op left right =>
    rcases List.mem_pair.mp h with rfl | rfl
    · exact ⟨logicLeft l op right, rfl⟩
    · exact ⟨logicRight l op left, rfl⟩
  | compare l op left right =>
    rcases List.mem_pair.mp h with rfl | rfl
    · exact ⟨compareLeft l op right, rfl⟩
    · exact ⟨compareRight l op left, rfl⟩
  | call l callee args =>
    rcases List.mem_cons.mp h with rfl | h
    · exact ⟨callCallee l args, rfl⟩
    · obtain ⟨before, after, rfl⟩ := List.append_of_mem h
      exact ⟨callArgument l callee before after, rfl⟩
  | «attribute» l value attr =>
    rw [← List.mem_singleton.mp h]
    exact ⟨attributeValue l attr, rfl⟩
  | subscript l value index =>
    rcases List.mem_pair.mp h with rfl | rfl
    · exact ⟨subscriptValue l index, rfl⟩
    · exact ⟨subscriptIndex l value, rfl⟩

end ExprHole

section

variable {label : Label} {new : Expr Label}

/-- Without the expression of a label, nothing is replaced. -/
theorem Expr.substitute_of_notMem {e : Expr Label} (h : label ∉ e.labels) : Expr.substitute label new e = e :=
  Expr.substitute_self fun _ hpart htag => absurd (htag ▸ List.mem_map_of_mem hpart) h

theorem Expr.map_substitute_of_notMem {es : List (Expr Label)} (h : label ∉ es.flatMap Expr.labels) :
    es.map (Expr.substitute label new) = es :=
  (List.map_congr_left fun e he => Expr.substitute_of_notMem fun hmem =>
    h (List.mem_flatMap.mpr ⟨e, he, hmem⟩)).trans (List.map_id es)

theorem Expr.map_toList_eq_self {cond : Option (Expr Label)} :
    cond.toList.map (Expr.substitute label new) = cond.toList ↔ Expr.substituteCond label new cond = cond := by
  cases cond <;> simp [Expr.substituteCond]

/-- Away from a hole, replacing a node changes what fills it only. -/
theorem ExprHole.substitute_fill {hole : ExprHole} (h : label ∉ hole.labels) (e : Expr Label) :
    Expr.substitute label new (hole.fill e) = hole.fill (Expr.substitute label new e) := by
  simp only [labels, List.mem_cons, List.flatMap_append, List.mem_append, not_or] at h
  obtain ⟨hlabel, hbefore, hafter⟩ := h
  replace hbefore : hole.before.map (Expr.substitute label new) = hole.before := Expr.map_substitute_of_notMem hbefore
  replace hafter : hole.after.map (Expr.substitute label new) = hole.after := Expr.map_substitute_of_notMem hafter
  rw [Expr.substitute_eq, if_neg (by rw [hole.tag_fill]; exact Ne.symm hlabel)]
  cases hole <;>
    simp_all [fill, before, after, Expr.substituteBelow, Expr.substituteAll_eq, Expr.substituteCond,
      Expr.map_toList_eq_self]

end

/-- Operands one in another, the outermost first. -/
abbrev ExprPath := List ExprHole

namespace ExprPath

/-- The expression with an operand at the end of a path. -/
def fill (e : Expr Label) : ExprPath → Expr Label
  | [] => e
  | hole :: path => hole.fill (fill e path)

/-- The labels outside of the operand at the end. -/
def labels (path : ExprPath) : List Label := path.flatMap ExprHole.labels

theorem labels_fill (e : Expr Label) : ∀ path : ExprPath, (fill e path).labels.Perm (path.labels ++ e.labels)
  | [] => .refl _
  | hole :: path => by
    have hpath := (labels_fill e path).append_left hole.labels
    rw [← List.append_assoc] at hpath
    exact (hole.labels_fill (fill e path)).trans hpath

/-- Away from a path, replacing a node changes what is at its end only. -/
theorem substitute_fill {label : Label} {new e : Expr Label} : ∀ {path : ExprPath}, label ∉ path.labels →
    Expr.substitute label new (fill e path) = fill (Expr.substitute label new e) path
  | [], _ => rfl
  | hole :: path, h => by
    rw [labels, List.flatMap_cons, List.mem_append, not_or] at h
    rw [fill, hole.substitute_fill h.1, substitute_fill h.2, fill]

/-- By induction on the expression: each of its parts stands at the end of a path. -/
theorem exists_fill {e : Expr Label} (node : Node Label) : .expr e ∈ node.nodes → ∀ outer, node = .expr outer →
    ∃ path : ExprPath, outer = path.fill e := by
  induction node using Node.induct with
  | h node ih =>
    rintro he outer rfl
    rw [Node.nodes_eq] at he
    rcases List.mem_cons.mp he with he | he
    · exact ⟨[], (Node.expr.inj he).symm⟩
    · obtain ⟨child, hchild, he⟩ := List.mem_flatMap.mp he
      obtain ⟨part, hpart, rfl⟩ := List.mem_map.mp hchild
      obtain ⟨path, hpath⟩ := ih _ hchild he part rfl
      obtain ⟨hole, rfl⟩ := ExprHole.exists_fill hpart
      exact ⟨hole :: path, congrArg (ExprHole.fill · hole) hpath⟩

end ExprPath

/-! ### Statements without an expression -/

/-- A statement that has lost one of its own expressions. -/
inductive StmtHole where
  | retValue (l : Label)
  | assignTarget (l : Label) (value : Expr Label)
  | assignValue (l : Label) (target : Expr Label)
  | augAssignTarget (l : Label) (op : BinaryOp) (value : Expr Label)
  | augAssignValue (l : Label) (target : Expr Label) (op : BinaryOp)
  | forSource (l : Label) (var : String) (body : Block Label)
  | whileTest (l : Label) (body : Block Label)
  | ifTest (l : Label) (body orelse : Block Label)
  | exprValue (l : Label)

namespace StmtHole

/-- The statement with an expression in its place. -/
def fill (e : Expr Label) : StmtHole → Stmt Label
  | retValue l => .ret l (some e)
  | assignTarget l value => .assign l e value
  | assignValue l target => .assign l target e
  | augAssignTarget l op value => .augAssign l e op value
  | augAssignValue l target op => .augAssign l target op e
  | forSource l var body => .forLoop l var e body
  | whileTest l body => .whileLoop l e body
  | ifTest l body orelse => .ifElse l e body orelse
  | exprValue l => .expr l e

/-- The label of the statement. -/
def label : StmtHole → Label
  | retValue l | assignTarget l _ | assignValue l _ | augAssignTarget l .. | augAssignValue l .. | forSource l ..
  | whileTest l _ | ifTest l .. | exprValue l => l

/-- What is in the slots of the statement before the one of the expression. -/
def before : StmtHole → List (Node Label)
  | assignValue _ target | augAssignValue _ target _ => [.expr target]
  | _ => []

/-- What is in the slots of the statement after the one of the expression. -/
def after : StmtHole → List (Node Label)
  | assignTarget _ value | augAssignTarget _ _ value => [.expr value]
  | forSource _ _ body | whileTest _ body => List.map .stmt body
  | ifTest _ body orelse => List.map .stmt body ++ List.map .stmt orelse
  | _ => []

/-- The labels outside of the expression. -/
def labels (hole : StmtHole) : List Label :=
  hole.label :: (hole.before ++ hole.after).flatMap Node.labels

theorem children_fill (hole : StmtHole) (e : Expr Label) :
    Node.children (.stmt (hole.fill e)) = hole.before ++ .expr e :: hole.after := by
  cases hole <;> rfl

theorem labels_fill (hole : StmtHole) (e : Expr Label) : (hole.fill e).labels.Perm (hole.labels ++ e.labels) := by
  have htag : (hole.fill e).tag = hole.label := by cases hole <;> rfl
  have hlabels : (hole.fill e).labels =
      hole.label :: (hole.before ++ .expr e :: hole.after).flatMap Node.labels := by
    rw [← children_fill, ← htag]
    exact Node.labels_eq (.stmt (hole.fill e))
  rw [hlabels, ← Node.labels_expr]
  exact perm_cons_flatMap Node.labels hole.label hole.before hole.after (.expr e)

/-- An expression in a slot of a statement fills the hole that it leaves there. -/
theorem exists_fill {e : Expr Label} {s : Stmt Label} (h : .expr e ∈ Node.children (.stmt s)) :
    ∃ hole : StmtHole, s = hole.fill e := by
  cases s with
  | functionDef => simp [Node.children] at h
  | ret l value =>
    obtain rfl : value = some e := by simpa [Node.children] using h
    exact ⟨retValue l, rfl⟩
  | assign l target value =>
    obtain rfl | rfl : e = target ∨ e = value := by simpa [Node.children] using h
    · exact ⟨assignTarget l value, rfl⟩
    · exact ⟨assignValue l target, rfl⟩
  | augAssign l target op value =>
    obtain rfl | rfl : e = target ∨ e = value := by simpa [Node.children] using h
    · exact ⟨augAssignTarget l op value, rfl⟩
    · exact ⟨augAssignValue l target op, rfl⟩
  | forLoop l var source body =>
    obtain rfl : e = source := by simpa [Node.children] using h
    exact ⟨forSource l var body, rfl⟩
  | whileLoop l test body =>
    obtain rfl : e = test := by simpa [Node.children] using h
    exact ⟨whileTest l body, rfl⟩
  | ifElse l test body orelse =>
    obtain rfl : e = test := by simpa [Node.children] using h
    exact ⟨ifTest l body orelse, rfl⟩
  | expr l value =>
    obtain rfl : e = value := by simpa [Node.children] using h
    exact ⟨exprValue l, rfl⟩
  | pass | brk | cont => cases h

end StmtHole

section

variable {label : Label}

theorem Block.mapExprs_of_notMem {new : Expr Label} {body : Block Label}
    (h : label ∉ (Block.nodes body).map Node.tag) : Block.mapExprs (Expr.substitute label new) body = body :=
  Block.mapExprs_self fun _ hpart htag => absurd (htag ▸ List.mem_map_of_mem (f := Node.tag) hpart) h

theorem Block.labels_eq (body : Block Label) :
    (Block.nodes body).map Node.tag = (List.map Node.stmt body).flatMap Node.labels := by
  rw [Block.nodes_eq, List.map_flatMap]
  rfl

/-- Away from a hole, replacing an expression changes what fills it only. -/
theorem StmtHole.mapExprs_fill {new : Expr Label} {hole : StmtHole} (h : label ∉ hole.labels) (e : Expr Label) :
    (hole.fill e).mapExprs (Expr.substitute label new) = hole.fill (Expr.substitute label new e) := by
  simp only [labels, List.mem_cons, List.flatMap_append, List.mem_append, not_or] at h
  obtain ⟨-, hbefore, hafter⟩ := h
  cases hole <;>
    simp_all [fill, before, after, Stmt.mapExprs, Node.labels_expr, Expr.substitute_of_notMem, ← Block.labels_eq,
      Block.mapExprs_of_notMem, -List.mem_flatMap, -List.mem_map]

theorem Block.substituteStmt_of_notMem {new : Stmt Label} {body : Block Label}
    (h : label ∉ (Block.nodes body).map Node.tag) : Block.substituteStmt label new body = body :=
  Block.substituteStmt_self fun _ hpart htag => absurd (htag ▸ List.mem_map_of_mem (f := Node.tag) hpart) h

theorem Block.mapExprs_append (f : Expr Label → Expr Label) (body rest : Block Label) :
    Block.mapExprs f (body ++ rest) = Block.mapExprs f body ++ Block.mapExprs f rest := by
  simp only [Block.mapExprs_eq, List.map_append]

theorem Block.substituteStmt_eq (new : Stmt Label) (body : Block Label) :
    Block.substituteStmt label new body = List.map (Stmt.substituteStmt label new) body := by
  induction body with
  | nil => rfl
  | cons s rest ih => rw [Block.substituteStmt, ih, List.map_cons]

theorem Block.substituteStmt_append (new : Stmt Label) (body rest : Block Label) :
    Block.substituteStmt label new (body ++ rest) =
      Block.substituteStmt label new body ++ Block.substituteStmt label new rest := by
  simp only [Block.substituteStmt_eq, List.map_append]

/-! ### Paths through statements -/

/-- Away from a path, replacing a statement changes what is at its end only. -/
theorem Path.substituteStmt_fill (new : Stmt Label) (block : Block Label) : ∀ {path : Path}, label ∉ path.labels →
    Block.substituteStmt label new (path.fill block) = path.fill (Block.substituteStmt label new block)
  | [], _ => rfl
  | ⟨before, hole, after⟩ :: path, h => by
    simp only [labels, List.flatMap_cons, Level.labels, Level.nodes, List.mem_append, List.mem_cons, List.map_append,
      not_or] at h
    obtain ⟨⟨hlabel, ⟨hbefore, hbeside⟩, hafter⟩, hpath⟩ := h
    have hfill := substituteStmt_fill new block hpath
    have hhole : Stmt.substituteStmt label new (hole.fill (fill path block)) =
        hole.fill (fill path (Block.substituteStmt label new block)) := by
      rw [Stmt.substituteStmt_eq, if_neg (by rw [hole.tag_fill]; exact Ne.symm hlabel), ← hfill]
      cases hole <;> simp_all [Hole.fill, Hole.nodes, Stmt.substituteBelow, Block.substituteStmt_of_notMem,
        -List.mem_map]
    rw [fill, Level.fill, Block.substituteStmt_append, Block.substituteStmt, hhole,
      Block.substituteStmt_of_notMem hbefore, Block.substituteStmt_of_notMem hafter]
    rfl

/-- Away from a path, replacing an expression changes what is at its end only. -/
theorem Path.mapExprs_fill (new : Expr Label) (block : Block Label) : ∀ {path : Path}, label ∉ path.labels →
    Block.mapExprs (Expr.substitute label new) (path.fill block) =
      path.fill (Block.mapExprs (Expr.substitute label new) block)
  | [], _ => rfl
  | ⟨before, hole, after⟩ :: path, h => by
    simp only [labels, List.flatMap_cons, Level.labels, Level.nodes, List.mem_append, List.mem_cons, List.map_append,
      not_or] at h
    obtain ⟨⟨-, ⟨hbefore, hbeside⟩, hafter⟩, hpath⟩ := h
    have hfill := mapExprs_fill new block hpath
    have hhole : (hole.fill (fill path block)).mapExprs (Expr.substitute label new) =
        hole.fill (fill path (Block.mapExprs (Expr.substitute label new) block)) := by
      rw [← hfill]
      cases hole <;> simp_all [Hole.fill, Hole.nodes, Stmt.mapExprs, Block.mapExprs_of_notMem, Expr.map_tag_nodes,
        Expr.substitute_of_notMem, -List.mem_map]
    rw [fill, Level.fill, Block.mapExprs_append, Block.mapExprs, hhole, Block.mapExprs_of_notMem hbefore,
      Block.mapExprs_of_notMem hafter]
    rfl

end

/-! ### Places -/

/-- Where a statement stands: among the statements of a block at the end of a path. -/
structure StmtPlace where
  path : Path
  before : Block Label
  after : Block Label

namespace StmtPlace

/-- The program with a statement in the place. -/
def fill (s : Stmt Label) (place : StmtPlace) : Block Label :=
  place.path.fill (place.before ++ s :: place.after)

/-- The labels outside of the statement. -/
def labels (place : StmtPlace) : List Label :=
  place.path.labels ++ (Block.nodes (place.before ++ place.after)).map Node.tag

theorem labels_fill (place : StmtPlace) (s : Stmt Label) :
    ((Block.nodes (place.fill s)).map Node.tag).Perm (place.labels ++ s.labels) := by
  refine (place.path.tags_fill _).trans (List.perm_iff_count.mpr fun l => ?_)
  simp only [labels, Stmt.labels, Block.nodes_append, Block.nodes, List.map_append, List.count_append]
  omega

/-- Where labels occur once, that of the statement does not occur outside of it. -/
theorem tag_notMem_labels (place : StmtPlace) {s : Stmt Label}
    (h : ((Block.nodes (place.fill s)).map Node.tag).Nodup) : s.tag ∉ place.labels := fun hmem =>
  (List.nodup_append.mp ((place.labels_fill s).nodup h)).2.2 _ hmem _ (List.mem_map_of_mem s.self_mem_nodes) rfl

theorem tag_notMem_path (place : StmtPlace) {s : Stmt Label}
    (h : ((Block.nodes (place.fill s)).map Node.tag).Nodup) : s.tag ∉ place.path.labels :=
  fun hmem => place.tag_notMem_labels h (List.mem_append_left _ hmem)

/-- Replacing the statement in a place. -/
theorem substituteStmt_fill {place : StmtPlace} {old : Stmt Label} (h : old.tag ∉ place.labels) (new : Stmt Label) :
    Block.substituteStmt old.tag new (place.fill old) = place.fill new := by
  simp only [labels, Block.nodes_append, List.map_append, List.mem_append, not_or] at h
  obtain ⟨hpath, hbefore, hafter⟩ := h
  rw [fill, Path.substituteStmt_fill new _ hpath, Block.substituteStmt_append, Block.substituteStmt,
    Block.substituteStmt_of_notMem hbefore, Block.substituteStmt_of_notMem hafter, Stmt.substituteStmt_eq, if_pos rfl]
  rfl

end StmtPlace

/-- Where an expression stands: at the end of a path through an expression of a statement. -/
structure ExprPlace where
  stmt : StmtPlace
  hole : StmtHole
  path : ExprPath

namespace ExprPlace

/-- The program with an expression in the place. -/
def fill (e : Expr Label) (place : ExprPlace) : Block Label :=
  place.stmt.fill (place.hole.fill (place.path.fill e))

/-- The labels outside of the expression. -/
def labels (place : ExprPlace) : List Label := place.stmt.labels ++ (place.hole.labels ++ place.path.labels)

theorem labels_fill (place : ExprPlace) (e : Expr Label) :
    ((Block.nodes (place.fill e)).map Node.tag).Perm (place.labels ++ e.labels) := by
  have hhole := (place.hole.labels_fill (place.path.fill e)).trans
    ((place.path.labels_fill e).append_left place.hole.labels)
  have hstmt := (place.stmt.labels_fill _).trans (hhole.append_left place.stmt.labels)
  rw [labels, List.append_assoc, List.append_assoc]
  exact hstmt

/-- Where labels occur once, those of the expression do not occur outside of it. -/
theorem notMem_labels (place : ExprPlace) {e part : Expr Label}
    (h : ((Block.nodes (place.fill e)).map Node.tag).Nodup) (hpart : part ∈ e.subterms) : part.tag ∉ place.labels :=
  fun hmem =>
    (List.nodup_append.mp ((place.labels_fill e).nodup h)).2.2 _ hmem _ (List.mem_map_of_mem hpart) rfl

/-- Away from a place, replacing an expression changes what stands in it only. -/
theorem substituteExpr_fill {place : ExprPlace} {label : Label} (h : label ∉ place.labels) (new e : Expr Label) :
    Block.substituteExpr label new (place.fill e) = place.fill (Expr.substitute label new e) := by
  simp only [labels, StmtPlace.labels, Block.nodes_append, List.map_append, List.mem_append, not_or] at h
  obtain ⟨⟨hpath, hbefore, hafter⟩, hhole, hinner⟩ := h
  rw [fill, StmtPlace.fill, Block.substituteExpr, Path.mapExprs_fill new _ hpath, Block.mapExprs_append,
    Block.mapExprs, Block.mapExprs_of_notMem hbefore, Block.mapExprs_of_notMem hafter, StmtHole.mapExprs_fill hhole,
    ExprPath.substitute_fill hinner]
  rfl

/-- Replacing the expression in a place. -/
theorem substituteExpr_fill_tag {place : ExprPlace} {old : Expr Label} (h : old.tag ∉ place.labels)
    (new : Expr Label) : Block.substituteExpr old.tag new (place.fill old) = place.fill new := by
  rw [substituteExpr_fill h, Expr.substitute_eq, if_pos rfl]

end ExprPlace

/-! ### Every node has a place -/

/-- By induction on the node: every expression below a statement is a part of an expression in a slot of a
statement. -/
theorem Node.exists_holder {e : Expr Label} (node : Node Label) : .expr e ∈ node.nodes →
    (∃ outer, node = .expr outer) ∨
      ∃ s outer, .stmt s ∈ node.nodes ∧ .expr outer ∈ Node.children (.stmt s) ∧ .expr e ∈ (Node.expr outer).nodes := by
  induction node using Node.induct with
  | h node ih =>
    intro he
    cases node with
    | expr outer => exact .inl ⟨outer, rfl⟩
    | stmt s =>
      rw [Node.nodes_eq] at he
      obtain ⟨child, hchild, he⟩ := List.mem_flatMap.mp ((List.mem_cons.mp he).resolve_left (by simp))
      refine .inr ?_
      rcases ih child hchild he with ⟨outer, rfl⟩ | ⟨s', outer, hs', houter, he⟩
      · exact ⟨s, outer, by simp [Node.nodes_eq (.stmt s)], hchild, he⟩
      · refine ⟨s', outer, ?_, houter, he⟩
        rw [Node.nodes_eq]
        exact List.mem_cons_of_mem _ (List.mem_flatMap.mpr ⟨child, hchild, hs'⟩)

namespace Tree.HasLabels

variable {t : Tree}

/-- Every statement of a tree stands in a place. -/
theorem exists_stmtPlace (h : t.HasLabels) {s : Stmt Label} (hs : .stmt s ∈ t.nodes) :
    ∃ place : StmtPlace, t.body = place.fill s ∧ s.tag ∉ place.labels := by
  obtain ⟨focus, hfocus, rfl⟩ := h.exists_focus hs
  obtain ⟨path, hbody, -, -⟩ := Block.exists_path h.nodup hfocus
  let place : StmtPlace := ⟨path, focus.before, focus.after⟩
  replace hbody : t.body = place.fill focus.stmt := hbody
  exact ⟨place, hbody, place.tag_notMem_labels (hbody ▸ h.nodup)⟩

/-- Every expression of a tree stands in a place. -/
theorem exists_exprPlace (h : t.HasLabels) {e : Expr Label} (he : .expr e ∈ t.nodes) :
    ∃ place : ExprPlace, t.body = place.fill e ∧ e.tag ∉ place.labels := by
  obtain ⟨s, outer, hs, houter, hpart⟩ : ∃ s outer, .stmt s ∈ t.nodes ∧ .expr outer ∈ Node.children (.stmt s) ∧
      .expr e ∈ (Node.expr outer).nodes := by
    rw [Tree.nodes, Block.nodes_eq] at he
    obtain ⟨node, hnode, he⟩ := List.mem_flatMap.mp he
    obtain ⟨s, hs, rfl⟩ := List.mem_map.mp hnode
    obtain ⟨outer, houter⟩ | ⟨s', outer, hs', houter, hpart⟩ := Node.exists_holder _ he
    · cases houter
    · exact ⟨s', outer, Block.mem_nodes_of_mem hs hs', houter, hpart⟩
  obtain ⟨hole, rfl⟩ := StmtHole.exists_fill houter
  obtain ⟨path, rfl⟩ := ExprPath.exists_fill _ hpart outer rfl
  obtain ⟨stmt, hbody, -⟩ := h.exists_stmtPlace hs
  let place : ExprPlace := ⟨stmt, hole, path⟩
  replace hbody : t.body = place.fill e := hbody
  exact ⟨place, hbody, place.notMem_labels (hbody ▸ h.nodup) e.self_mem_subterms⟩

end Tree.HasLabels

end ProgramBreeding

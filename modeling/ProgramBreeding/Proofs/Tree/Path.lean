import Mathlib.Data.List.Perm.Basic
import ProgramBreeding.Proofs.Tree.Parts

/-!
# Paths to blocks

A block of a program stands at the end of a path through the statements around it.  Replacing
the block around a statement changes what is at the end of the path and nothing else.

## Main definitions

* `Hole` — a statement that has lost one of its blocks.
* `Level`, `Path` — a hole with the statements beside it; holes one in another.
* `Path.fill` — a program from a path and the block at its end.
* `Path.tags_fill` — its labels are those of the path and those of the block.
* `Block.exists_path` — where the block around a statement stands.

## Design notes

A path is outermost first, as the program is read.  What a statement with a hole says itself
does not depend on the block that it is filled with.
-/

namespace ProgramBreeding

/-- The nodes of a statement of a block are nodes of the block. -/
theorem Block.mem_nodes_of_mem {α : Type} {body : Block α} {s : Stmt α} {node : Node α}
    (hs : s ∈ body) (h : node ∈ s.nodes) : node ∈ Block.nodes body := by
  obtain ⟨before, after, rfl⟩ := List.append_of_mem hs
  rw [Block.nodes_append]
  exact List.mem_append_right _ (List.mem_append_left _ h)

/-- No statement of a block has a label that none of the nodes has. -/
theorem Block.holds_eq_false {label : Label} {body : Block Label}
    (h : label ∉ (Block.nodes body).map Node.tag) : Block.holds label body = false := by
  have hne : ∀ s ∈ body, s.tag ≠ label := by
    rintro s hs rfl
    exact h (List.mem_map_of_mem (f := Node.tag) (Block.mem_nodes_of_mem hs s.self_mem_nodes))
  simpa [Block.holds] using hne

/-- A statement that has lost one of its blocks. -/
inductive Hole where
  | functionDef (l : Label) (name : String) (params : List String)
  | forLoop (l : Label) (x : String) (source : Expr Label)
  | whileLoop (l : Label) (test : Expr Label)
  /-- A conditional without what is done if the condition holds. -/
  | thenBlock (l : Label) (test : Expr Label) (orelse : Block Label)
  /-- A conditional without its alternative. -/
  | elseBlock (l : Label) (test : Expr Label) (body : Block Label)

namespace Hole

/-- The statement with a block in its place. -/
def fill (block : Block Label) : Hole → Stmt Label
  | .functionDef l name params => .functionDef l name params block
  | .forLoop l x source => .forLoop l x source block
  | .whileLoop l test => .whileLoop l test block
  | .thenBlock l test orelse => .ifElse l test block orelse
  | .elseBlock l test body => .ifElse l test body block

/-- The label of the statement. -/
def label : Hole → Label
  | .functionDef l .. | .forLoop l .. | .whileLoop l .. | .thenBlock l .. | .elseBlock l .. => l

/-- The nodes below the statement that are not below the block. -/
def nodes : Hole → List (Node Label)
  | .functionDef .. => []
  | .forLoop _ _ source => source.nodes
  | .whileLoop _ test => test.nodes
  | .thenBlock _ test orelse => test.nodes ++ Block.nodes orelse
  | .elseBlock _ test body => test.nodes ++ Block.nodes body

/-- Whether the block must not be empty. -/
def isRequired : Hole → Bool
  | .elseBlock .. => false
  | _ => true

@[simp] theorem tag_fill (hole : Hole) (block : Block Label) : (hole.fill block).tag = hole.label := by
  cases hole <;> rfl

theorem mem_nodes_fill {hole : Hole} {block : Block Label} {node : Node Label} :
    node ∈ (hole.fill block).nodes ↔
      node = .stmt (hole.fill block) ∨ node ∈ hole.nodes ∨ node ∈ Block.nodes block := by
  cases hole <;> simp [fill, nodes, Stmt.nodes, or_assoc, or_comm]

theorem tags_fill (hole : Hole) (block : Block Label) :
    ((hole.fill block).nodes.map Node.tag).Perm
      (hole.label :: hole.nodes.map Node.tag ++ (Block.nodes block).map Node.tag) := by
  cases hole with
  | elseBlock l test body =>
    simp [fill, label, nodes, Stmt.nodes, Node.tag, Stmt.tag]
  | thenBlock l test orelse =>
    simp only [fill, label, nodes, Stmt.nodes, Node.tag, Stmt.tag, List.map_cons, List.map_append,
      List.cons_append, List.append_assoc]
    exact (List.perm_append_comm.append_left _).cons _
  | _ => simp [fill, label, nodes, Stmt.nodes, Node.tag, Stmt.tag]

end Hole

/-- A hole with the statements beside it. -/
structure Level where
  before : Block Label
  hole : Hole
  after : Block Label

namespace Level

/-- The block with a block in the hole. -/
def fill (level : Level) (block : Block Label) : Block Label :=
  level.before ++ level.hole.fill block :: level.after

/-- The nodes beside and below the statement with the hole. -/
def nodes (level : Level) : List (Node Label) :=
  Block.nodes level.before ++ level.hole.nodes ++ Block.nodes level.after

/-- The labels outside of the hole. -/
def labels (level : Level) : List Label := level.hole.label :: level.nodes.map Node.tag

variable {level : Level} {block : Block Label} {node : Node Label}

theorem mem_nodes_fill : node ∈ Block.nodes (level.fill block) ↔
    node = .stmt (level.hole.fill block) ∨ node ∈ level.nodes ∨ node ∈ Block.nodes block := by
  simp only [fill, nodes, Block.nodes_append, Block.nodes, List.mem_append, Hole.mem_nodes_fill]
  tauto

theorem tags_fill (level : Level) (block : Block Label) :
    ((Block.nodes (level.fill block)).map Node.tag).Perm
      (level.labels ++ (Block.nodes block).map Node.tag) := by
  refine List.perm_iff_count.mpr fun l => ?_
  have hhole := (level.hole.tags_fill block).count_eq l
  simp only [fill, labels, nodes, Block.nodes_append, Block.nodes, List.map_append, List.count_append,
    List.count_cons, List.cons_append] at hhole ⊢
  omega

/-- A statement of the block in the hole does not stand beside it. -/
theorem holds_eq_false {label : Label} (h : label ∉ level.labels) :
    Block.holds label (level.fill block) = false := by
  have hbefore : Block.holds label level.before = false :=
    Block.holds_eq_false fun hmem => h (by simp_all [labels, nodes])
  have hafter : Block.holds label level.after = false :=
    Block.holds_eq_false fun hmem => h (by simp_all [labels, nodes])
  have hlabel : level.hole.label ≠ label := fun heq => h (heq ▸ List.mem_cons_self ..)
  unfold Block.holds at hbefore hafter ⊢
  rw [fill, List.any_append, List.any_cons, hbefore, hafter, Hole.tag_fill,
    decide_eq_false hlabel]
  rfl

end Level

/-- Holes one in another, the outermost first. -/
abbrev Path := List Level

namespace Path

/-- The program with a block at the end of a path. -/
def fill : Path → Block Label → Block Label
  | [], block => block
  | level :: path, block => level.fill (fill path block)

/-- The labels outside of the block at the end. -/
def labels (path : Path) : List Label := path.flatMap Level.labels

/-- Whether the block at the end must not be empty, given what holds for the block that the path
starts in. -/
def requiredOr (required : Bool) : Path → Bool
  | [] => required
  | level :: path => requiredOr level.hole.isRequired path

theorem requiredOr_concat (required : Bool) (path : Path) (level : Level) :
    requiredOr required (path ++ [level]) = level.hole.isRequired := by
  induction path generalizing required with
  | nil => rfl
  | cons _ _ ih => exact ih _

theorem tags_fill (block : Block Label) : ∀ path : Path,
    ((Block.nodes (fill path block)).map Node.tag).Perm
      (path.labels ++ (Block.nodes block).map Node.tag)
  | [] => .refl _
  | level :: path => by
    have htags := (level.tags_fill (fill path block)).trans
      ((tags_fill block path).append_left level.labels)
    rw [labels, List.flatMap_cons, List.append_assoc]
    exact htags

/-- The nodes of a program: the statements on a path, what is beside it and what is in the block
at its end. -/
theorem mem_nodes_fill {block : Block Label} {node : Node Label} : ∀ {path : Path},
    node ∈ Block.nodes (fill path block) ↔
      (∃ outer level inner, path = outer ++ level :: inner ∧
        node = .stmt (level.hole.fill (fill inner block))) ∨
      (∃ level ∈ path, node ∈ level.nodes) ∨ node ∈ Block.nodes block
  | [] => by simp [fill]
  | level :: path => by
    rw [fill, Level.mem_nodes_fill, mem_nodes_fill]
    constructor
    · rintro (rfl | h | ⟨outer, level', inner, rfl, rfl⟩ | ⟨level', hlevel', h⟩ | h)
      · exact .inl ⟨[], level, path, rfl, rfl⟩
      · exact .inr (.inl ⟨level, List.mem_cons_self .., h⟩)
      · exact .inl ⟨level :: outer, level', inner, rfl, rfl⟩
      · exact .inr (.inl ⟨level', .tail _ hlevel', h⟩)
      · exact .inr (.inr h)
    · rintro (⟨outer, level', inner, hpath, rfl⟩ | ⟨level', hlevel', h⟩ | h)
      · cases outer with
        | nil =>
          obtain ⟨rfl, rfl⟩ := List.cons.inj hpath
          exact .inl rfl
        | cons _ outer =>
          obtain ⟨rfl, rfl⟩ := List.cons.inj hpath
          exact .inr (.inr (.inl ⟨outer, level', inner, rfl, rfl⟩))
      · rcases List.mem_cons.mp hlevel' with rfl | hlevel'
        · exact .inr (.inl h)
        · exact .inr (.inr (.inr (.inl ⟨level', hlevel', h⟩)))
      · exact .inr (.inr (.inr (.inr h)))

/-- What is in the block at the end is in the program. -/
theorem mem_nodes_fill_of_mem {block : Block Label} {node : Node Label}
    (h : node ∈ Block.nodes block) (path : Path) : node ∈ Block.nodes (fill path block) :=
  mem_nodes_fill.mpr (.inr (.inr h))

/-- A statement that a focus is on is in the program. -/
theorem tag_mem_of_focus {focus : Focus} (path : Path) :
    focus.stmt.tag ∈ (Block.nodes (path.fill focus.block)).map Node.tag :=
  List.mem_map_of_mem (f := Node.tag) (mem_nodes_fill_of_mem
    (Block.mem_nodes_of_mem (by simp [Focus.block]) focus.stmt.self_mem_nodes) path)

end Path

/-! ### The block around a statement -/

section

variable {label : Label} {new : Block Label}

theorem Block.replaceIn_eq {body : Block Label} (h : label ∉ (Block.nodes body).map Node.tag)
    (hbelow : Block.replaceBelow label new body = body) :
    (if Block.holds label body then new else Block.replaceBelow label new body) = body := by
  rw [Block.holds_eq_false h]
  exact hbelow

mutual

/-- Without the statement of a label, nothing is replaced. -/
theorem Stmt.replaceAround_of_notMem : ∀ {s : Stmt Label}, label ∉ s.nodes.map Node.tag →
    Stmt.replaceAround label new s = s
  | .functionDef .., h => by
    have hbody := fun hmem => h (List.mem_cons_of_mem _ hmem)
    rw [Stmt.replaceAround, Block.replaceIn_eq hbody (Block.replaceBelow_of_notMem hbody)]
  | .forLoop .., h | .whileLoop .., h => by
    simp only [Stmt.nodes, List.map_cons, List.map_append, List.mem_cons, List.mem_append, not_or] at h
    rw [Stmt.replaceAround, Block.replaceIn_eq h.2.2 (Block.replaceBelow_of_notMem h.2.2)]
  | .ifElse .., h => by
    simp only [Stmt.nodes, List.map_cons, List.map_append, List.mem_cons, List.mem_append, not_or] at h
    obtain ⟨-, ⟨-, hbody⟩, horelse⟩ := h
    rw [Stmt.replaceAround, Block.replaceIn_eq hbody (Block.replaceBelow_of_notMem hbody),
      Block.replaceIn_eq horelse (Block.replaceBelow_of_notMem horelse)]
  | .ret .., _ | .assign .., _ | .augAssign .., _ | .expr .., _ | .pass _, _ | .brk _, _
  | .cont _, _ => rfl

theorem Block.replaceBelow_of_notMem : ∀ {body : List (Stmt Label)},
    label ∉ (Block.nodes body).map Node.tag → Block.replaceBelow label new body = body
  | [], _ => rfl
  | _ :: _, h => by
    simp only [Block.nodes, List.map_append, List.mem_append, not_or] at h
    rw [Block.replaceBelow, Stmt.replaceAround_of_notMem h.1, Block.replaceBelow_of_notMem h.2]

end

/-- Where the block around a statement stands in a block: it is the whole of it, or below one of the
statements. -/
theorem Block.exists_pathIn {required : Bool} {body : Block Label} {focus : Focus}
    (hnodup : ((Block.nodes body).map Node.tag).Nodup)
    (h : (body = focus.block ∧ focus.required = required ∧ Block.holds focus.stmt.tag body = true) ∨
      ∃ (level : Level) (path : Path), body = level.fill (path.fill focus.block) ∧
        focus.required = path.requiredOr level.hole.isRequired ∧
        ∀ new, Block.replaceBelow focus.stmt.tag new body = level.fill (path.fill new)) :
    ∃ path : Path, body = path.fill focus.block ∧ focus.required = path.requiredOr required ∧
      ∀ new, (if Block.holds focus.stmt.tag body then new
        else Block.replaceBelow focus.stmt.tag new body) = path.fill new := by
  rcases h with ⟨hblock, hrequired, hholds⟩ | ⟨level, path, hbody, hrequired, hnew⟩
  · refine ⟨[], hblock, hrequired, fun new => ?_⟩
    rw [if_pos hholds]
    rfl
  · refine ⟨level :: path, hbody, hrequired, fun new => ?_⟩
    have hnotMem : focus.stmt.tag ∉ level.labels := by
      intro hmem
      have htags := (level.tags_fill (path.fill focus.block)).nodup_iff.mp
        (show ((Block.nodes (level.fill _)).map Node.tag).Nodup from hbody ▸ hnodup)
      exact (List.nodup_append.mp htags).2.2 _ hmem _ path.tag_mem_of_focus rfl
    rw [hnew, hbody, Level.holds_eq_false hnotMem]
    rfl

mutual

/-- By induction on the statement: a statement that is found in one of its blocks stands at the
end of a path. -/
theorem Stmt.exists_path : ∀ {s : Stmt Label} {focus : Focus}, Stmt.focus? label s = some focus →
    (s.nodes.map Node.tag).Nodup → ∃ (hole : Hole) (path : Path),
      s = hole.fill (path.fill focus.block) ∧ focus.required = path.requiredOr hole.isRequired ∧
        ∀ new, Stmt.replaceAround focus.stmt.tag new s = hole.fill (path.fill new)
  | .functionDef l name params body, focus, h, hnodup => by
    obtain ⟨path, hbody, hrequired, hnew⟩ := Block.exists_pathIn (List.nodup_cons.mp hnodup).2
      (Block.exists_level h (List.nodup_cons.mp hnodup).2)
    exact ⟨.functionDef l name params, path, congrArg _ hbody, hrequired, fun new =>
      congrArg _ (hnew new)⟩
  | .forLoop l x source body, focus, h, hnodup => by
    simp only [Stmt.nodes, List.map_cons, List.map_append, List.nodup_cons, List.nodup_append] at hnodup
    obtain ⟨path, hbody, hrequired, hnew⟩ := Block.exists_pathIn hnodup.2.2.1 (Block.exists_level h hnodup.2.2.1)
    exact ⟨.forLoop l x source, path, congrArg _ hbody, hrequired, fun new => congrArg _ (hnew new)⟩
  | .whileLoop l test body, focus, h, hnodup => by
    simp only [Stmt.nodes, List.map_cons, List.map_append, List.nodup_cons, List.nodup_append] at hnodup
    obtain ⟨path, hbody, hrequired, hnew⟩ := Block.exists_pathIn hnodup.2.2.1 (Block.exists_level h hnodup.2.2.1)
    exact ⟨.whileLoop l test, path, congrArg _ hbody, hrequired, fun new => congrArg _ (hnew new)⟩
  | .ifElse l test body orelse, focus, h, hnodup => by
    simp only [Stmt.nodes, List.map_cons, List.map_append, List.nodup_cons, List.nodup_append] at hnodup
    obtain ⟨-, ⟨-, hbodyNodup, -⟩, horelseNodup, hdisjoint⟩ := hnodup
    rcases Option.or_eq_some_iff.mp h with h | ⟨-, h⟩
    · obtain ⟨path, hbody, hrequired, hnew⟩ := Block.exists_pathIn hbodyNodup (Block.exists_level h hbodyNodup)
      have hmem : focus.stmt.tag ∈ (Block.nodes body).map Node.tag := by
        rw [hbody]
        exact path.tag_mem_of_focus
      refine ⟨.thenBlock l test orelse, path, congrArg (Stmt.ifElse l test · orelse) hbody, hrequired,
        fun new => ?_⟩
      rw [Stmt.replaceAround, hnew,
        Block.replaceIn_eq (fun hmem' => hdisjoint _ (List.mem_append_right _ hmem) _ hmem' rfl)
        (Block.replaceBelow_of_notMem fun hmem' => hdisjoint _ (List.mem_append_right _ hmem) _ hmem' rfl)]
      rfl
    · obtain ⟨path, horelse, hrequired, hnew⟩ := Block.exists_pathIn horelseNodup (Block.exists_level h horelseNodup)
      have hmem : focus.stmt.tag ∈ (Block.nodes orelse).map Node.tag := by
        rw [horelse]
        exact path.tag_mem_of_focus
      refine ⟨.elseBlock l test body, path, congrArg (Stmt.ifElse l test body) horelse, hrequired,
        fun new => ?_⟩
      rw [Stmt.replaceAround, hnew,
        Block.replaceIn_eq (fun hmem' => hdisjoint _ (List.mem_append_right _ hmem') _ hmem rfl)
        (Block.replaceBelow_of_notMem fun hmem' => hdisjoint _ (List.mem_append_right _ hmem') _ hmem rfl)]
      rfl
  | .ret .., _, h, _ | .assign .., _, h, _ | .augAssign .., _, h, _ | .expr .., _, h, _
  | .pass _, _, h, _ | .brk _, _, h, _ | .cont _, _, h, _ => nomatch h

theorem Block.exists_level {required : Bool} {block : Block Label} :
    ∀ {rest : List (Stmt Label)} {focus : Focus},
      Block.focusIn? label required block rest = some focus →
        ((Block.nodes rest).map Node.tag).Nodup →
          (block = focus.block ∧ focus.required = required ∧ Block.holds focus.stmt.tag block = true) ∨
            ∃ (level : Level) (path : Path), rest = level.fill (path.fill focus.block) ∧
              focus.required = path.requiredOr level.hole.isRequired ∧
              ∀ new, Block.replaceBelow focus.stmt.tag new rest = level.fill (path.fill new)
  | [], focus, h, _ => by
    obtain ⟨⟨before, s, after⟩, hcut, rfl⟩ := Option.map_eq_some_iff.mp h
    obtain ⟨hblock, htag⟩ := Block.cut?_eq_some hcut
    rw [List.nil_append] at hblock
    refine .inl ⟨hblock, rfl, ?_⟩
    rw [hblock]
    simp [Block.holds]
  | s :: rest, focus, h, hnodup => by
    simp only [Block.nodes, List.map_append, List.nodup_append] at hnodup
    obtain ⟨hsNodup, hrestNodup, hdisjoint⟩ := hnodup
    rcases Option.or_eq_some_iff.mp h with h | ⟨-, h⟩
    · obtain ⟨hole, path, hs, hrequired, hnew⟩ := Stmt.exists_path h hsNodup
      have hmem : focus.stmt.tag ∈ s.nodes.map Node.tag := by
        rw [hs]
        obtain ⟨node, hnode, htag⟩ := List.mem_map.mp path.tag_mem_of_focus
        exact List.mem_map.mpr ⟨node, Hole.mem_nodes_fill.mpr (.inr (.inr hnode)), htag⟩
      refine .inr ⟨⟨[], hole, rest⟩, path, congrArg (· :: rest) hs, hrequired, fun new => ?_⟩
      rw [Block.replaceBelow, hnew, Block.replaceBelow_of_notMem fun hmem' =>
        hdisjoint _ hmem _ hmem' rfl]
      rfl
    · rcases Block.exists_level h hrestNodup with hhere | ⟨level, path, hrest, hrequired, hnew⟩
      · exact .inl hhere
      · have hmem : focus.stmt.tag ∈ (Block.nodes rest).map Node.tag := by
          rw [hrest]
          exact Path.tag_mem_of_focus (level :: path)
        refine .inr ⟨⟨s :: level.before, level.hole, level.after⟩, path, congrArg (s :: ·) hrest,
          hrequired, fun new => ?_⟩
        rw [Block.replaceBelow, hnew, Stmt.replaceAround_of_notMem fun hmem' =>
          hdisjoint _ hmem' _ hmem rfl]
        rfl

end

end

/-- The block around a statement stands at the end of a path, and replacing it changes nothing
else. -/
theorem Block.exists_path {label : Label} {body : Block Label} {focus : Focus}
    (hnodup : ((Block.nodes body).map Node.tag).Nodup) (h : Block.focus? label body = some focus) :
    ∃ path : Path, body = path.fill focus.block ∧ focus.required = path.requiredOr false ∧
      ∀ new, Block.replaceAround focus.stmt.tag new body = path.fill new :=
  Block.exists_pathIn hnodup (Block.exists_level h hnodup)

end ProgramBreeding

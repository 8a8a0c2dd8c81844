import ProgramBreeding.Proofs.Source.Nesting
import ProgramBreeding.Proofs.Source.Parametric
import ProgramBreeding.Proofs.Source.Progress
import ProgramBreeding.Proofs.Tree.Total

/-!
# Indented blocks hold statements

The parser reads the statements of an indented block up to its end, and does not ask for
one.  A block without statements needs an indentation that is read although no token
follows on the line, and such a line can be told from the text.

## Main definitions

* `hasHollowLine` — texts with such a line.
* `BlocksStart` — tokens in which no block ends right where it is opened.
* `Level.FillsBlocks` — levels whose blocks are not empty, on such tokens.

## Main results

* `blocksStart_of_tokenize` — the tokens of a text without such a line.
* `hasEmptyBody_eq_false_of_parse` — the program of such a text has no empty body.

## Design notes

The blanks of a line are followed by no token if the line goes on with a carriage return
that ends no line, or with a backslash at its end, and after these, blanks and more of
the same there is a line end, a comment or the end of the text.  The indentation of other
lines without tokens is not read.
-/

namespace ProgramBreeding

/-! ### The statements of a program -/

section

variable {α : Type}

/-- No body in a statement is empty. -/
def Stmt.IsFilled (s : Stmt α) : Prop := ∀ node ∈ s.nodes, node.hasEmptyBody = false

/-- No body in the statements of a block is empty. -/
def Block.IsFilled (body : Block α) : Prop := ∀ s ∈ body, Stmt.IsFilled s

theorem Block.isFilled_iff {body : Block α} :
    Block.IsFilled body ↔ ∀ node ∈ Block.nodes body, node.hasEmptyBody = false := by
  simp only [Block.nodes_eq, List.flatMap_map, List.mem_flatMap]
  exact ⟨fun h node ⟨s, hs, hnode⟩ => h s hs node hnode, fun h s hs node hnode => h node ⟨s, hs, hnode⟩⟩

/-- Only the statements in the blocks of a statement matter besides its own body. -/
theorem Stmt.isFilled_of_children {s : Stmt α} (hbody : s.hasEmptyBody = false)
    (hchildren : ∀ s', Node.stmt s' ∈ (Node.stmt s).children → s'.IsFilled) : s.IsFilled := by
  intro node hnode
  have hnodes : node ∈ (Node.stmt s).nodes := hnode
  rw [Node.nodes_eq] at hnodes
  rcases List.mem_cons.mp hnodes with rfl | hbelow
  · exact hbody
  · obtain ⟨child, hchild, hnode⟩ := List.mem_flatMap.mp hbelow
    cases child with
    | stmt s' => exact hchildren s' hchild node hnode
    | expr e =>
      obtain ⟨e', -, rfl⟩ := List.mem_map.mp hnode
      rfl

theorem Stmt.isFilled_ifElse {tag : α} {test : Expr α} {body orelse : Block α} (hne : body ≠ [])
    (hbody : Block.IsFilled body) (horelse : Block.IsFilled orelse) :
    (Stmt.ifElse tag test body orelse).IsFilled :=
  Stmt.isFilled_of_children (List.isEmpty_eq_false_iff.mpr hne) fun s hs => by
    have hmem : s ∈ body ∨ s ∈ orelse := by simpa [Node.children] using hs
    exact hmem.elim (hbody s) (horelse s)

end

end ProgramBreeding

namespace ProgramBreeding.Source

/-! ### Hollow lines -/

/-- No token stands before the end of the line, the lines that it goes on with included. -/
def isHollow : List Char → Bool
  | [] | '\n' :: _ | '#' :: _ => true
  | '\\' :: '\n' :: rest => isHollow rest
  | ' ' :: rest | '\t' :: rest | '\x0c' :: rest | '\r' :: rest => isHollow rest
  | _ => false

/-- The indentation of a line is read, but no token follows it. -/
def startsHollow (cs : List Char) : Bool :=
  match cs.dropWhile [' ', '\t', '\x0c'].contains with
  | [] | '\n' :: _ | '\r' :: '\n' :: _ | '#' :: _ => false
  | rest => isHollow rest

/-- Such a line stands in a text; `atStart` tells whether its first line counts. -/
def hasHollowLine (atStart : Bool) : List Char → Bool
  | [] => false
  | c :: rest => (atStart && startsHollow (c :: rest)) || hasHollowLine (c == '\n') rest

/-- The indentation of some line is read although no token follows it. -/
def HasHollowLine (text : String) : Prop := hasHollowLine true text.toList = true

instance (text : String) : Decidable (HasHollowLine text) :=
  inferInstanceAs (Decidable (_ = true))

theorem hasHollowLine_mono {atStart : Bool} {cs : List Char} (h : hasHollowLine true cs = false) :
    hasHollowLine atStart cs = false := by
  cases cs with
  | nil => rfl
  | cons c rest =>
    rw [hasHollowLine, Bool.or_eq_false_iff] at h ⊢
    exact ⟨by cases atStart; exacts [rfl, h.1], h.2⟩

/-- What is read leaves no such line behind. -/
theorem hasHollowLine_suffix {rest : List Char} : ∀ {atStart : Bool} (before : List Char),
    hasHollowLine atStart (before ++ rest) = false → hasHollowLine false rest = false
  | false, [], h => h
  | true, [], h => hasHollowLine_mono h
  | _, c :: before, h => by
    rw [List.cons_append, hasHollowLine, Bool.or_eq_false_iff] at h
    exact hasHollowLine_suffix before h.2

theorem hasHollowLine_after {rest : List Char} : ∀ {atStart : Bool} (before : List Char),
    hasHollowLine atStart (before ++ '\n' :: rest) = false → hasHollowLine true rest = false
  | _, [], h => by
    rw [List.nil_append, hasHollowLine, Bool.or_eq_false_iff] at h
    exact h.2
  | _, c :: before, h => by
    rw [List.cons_append, hasHollowLine, Bool.or_eq_false_iff] at h
    exact hasHollowLine_after before h.2

theorem isHollow_of_line {blanks rest : List Char} {c : Char} (hblanks : Scan.AreBlanks blanks)
    (hc : c ∉ [' ', '\t', '\x0c', '\n', '#']) (hend : c = '\r' → rest.head? ≠ some '\n')
    (h : hasHollowLine true (blanks ++ c :: rest) = false) : isHollow (c :: rest) = false := by
  have hblank : ¬ [' ', '\t', '\x0c'].contains c = true := fun hmem =>
    hc (List.mem_append_left ['\n', '#'] (List.contains_iff_mem.mp hmem))
  have hdrop : (blanks ++ c :: rest).dropWhile [' ', '\t', '\x0c'].contains = c :: rest := by
    rw [List.dropWhile_append_of_pos fun d hd => List.contains_iff_mem.mpr (hblanks d hd),
      List.dropWhile_cons_of_neg hblank]
  have hstarts : startsHollow (blanks ++ c :: rest) = false := by
    cases hcs : blanks ++ c :: rest with
    | nil => simp at hcs
    | cons d cs =>
      rw [hcs, hasHollowLine, Bool.or_eq_false_iff] at h
      exact h.1
  unfold startsHollow at hstarts
  rw [hdrop] at hstarts
  split at hstarts
  · rename_i heq
    cases heq
  · rename_i heq
    cases heq
    simp at hc
  · rename_i heq
    cases heq
    exact absurd rfl (hend rfl)
  · rename_i heq
    cases heq
    simp at hc
  · exact hstarts

/-! ### The tokens of a text -/

/-- A token that may follow another one: no block ends right where it is opened. -/
def Token.MayFollow (t next : Token) : Prop :=
  t.kind = .indent → next.kind ≠ .dedent ∧ next.kind ≠ .endOfInput

/-- No block ends right where it is opened. -/
def BlocksStart (ts : List Token) : Prop := ts.IsChain Token.MayFollow

namespace Scan

/-- The tokens found so far, the last one first. -/
def Chained (s : Scan) : Prop := s.tokens.IsChain (flip Token.MayFollow)

/-- A block that has been opened will hold a token. -/
structure Fills (s : Scan) : Prop where
  chained : s.Chained
  /-- The text that is left has no line whose indentation alone is read. -/
  lines : hasHollowLine s.atLineStart s.rest = false
  /-- Right after the start of a block, a token stands before the end of the line. -/
  opened : ∀ t ∈ s.tokens.head?, t.kind = .indent → s.atLineStart = false ∧ isHollow s.rest = false

theorem Chained.emit {s : Scan} (h : s.Chained) {kind : TokenKind} (column : Nat)
    (hkind : ∀ t ∈ s.tokens.head?, t.kind = .indent → kind ≠ .dedent ∧ kind ≠ .endOfInput) :
    (s.emit kind column).Chained :=
  List.IsChain.cons h hkind

/-- The ends of blocks follow tokens that open no block. -/
theorem Chained.closeBlocks (width : Nat) (indents : List Nat) {s : Scan} (h : s.Chained)
    (hlast : ∀ t ∈ s.tokens.head?, t.kind ≠ .indent) :
    (closeBlocks width indents s).Chained ∧
      ∀ t ∈ (closeBlocks width indents s).tokens.head?, t.kind ≠ .indent := by
  induction indents generalizing s with
  | nil => exact ⟨h, hlast⟩
  | cons w outer ih =>
    unfold Scan.closeBlocks
    split
    · refine ih (h.emit 1 fun t ht hkind => absurd hkind (hlast t ht)) ?_
      intro t ht hkind
      cases ht
      cases hkind
    · exact ⟨h, hlast⟩

theorem Fills.indented {s next : Scan} {width : Nat} (h : s.Fills)
    (hlast : ∀ t ∈ s.tokens.head?, t.kind ≠ .indent) (hline : s.atLineStart = false)
    (hrest : isHollow s.rest = false) (hindent : s.indentTo width = .ok next) : next.Fills := by
  unfold indentTo at hindent
  split at hindent
  · cases hindent
    exact ⟨Chained.emit h.chained 1 fun t ht hkind => absurd hkind (hlast t ht), h.lines,
      fun _ _ _ => ⟨hline, hrest⟩⟩
  · dsimp only at hindent
    split at hindent
    · cases hindent
      obtain ⟨hchained, hlast'⟩ := Chained.closeBlocks width s.indents h.chained hlast
      obtain ⟨hrest', hline'⟩ := closeBlocks_position width s.indents s
      refine ⟨hchained, ?_, fun t ht hkind => absurd hkind (hlast' t ht)⟩
      rw [hrest', hline']
      exact h.lines
    · cases hindent

theorem Fills.newline {s : Scan} {rest : List Char} (h : s.Fills) (hrest : s.rest = '\n' :: rest) :
    (s.newline rest).Fills := by
  have hlast : ∀ t ∈ s.tokens.head?, t.kind ≠ .indent := fun t ht hkind => by
    have hopened := (h.opened t ht hkind).2
    rw [hrest] at hopened
    cases hopened
  have hlines := h.lines
  rw [hrest] at hlines
  have hrest' : hasHollowLine (decide (s.depth = 0)) rest = false :=
    hasHollowLine_mono (hasHollowLine_after [] hlines)
  unfold Scan.newline
  extract_lets ended
  refine ⟨?_, hrest', ?_⟩
  · show ended.Chained
    unfold ended
    split
    · exact h.chained.emit _ fun t ht hkind => absurd hkind (hlast t ht)
    · exact h.chained
  · show ∀ t ∈ ended.tokens.head?, _
    unfold ended
    split
    · intro t ht hkind
      cases ht
      cases hkind
    · exact fun t ht hkind => absurd hkind (hlast t ht)

/-- What is read within a line without a token leaves a token to be read. -/
theorem Fills.within {s next : Scan} {text rest : List Char} (h : s.Fills) (hline : s.atLineStart = false)
    (hrest : s.rest = text ++ rest) (hnext : next.tokens = s.tokens ∧ next.rest = rest ∧ next.atLineStart = false)
    (hhollow : isHollow s.rest = false → isHollow rest = false) : next.Fills := by
  obtain ⟨htokens, rfl, hline'⟩ := hnext
  have hlines := h.lines
  rw [hline, hrest] at hlines
  refine ⟨?_, ?_, ?_⟩
  · unfold Chained
    rw [htokens]
    exact h.chained
  · rw [hline']
    exact hasHollowLine_suffix text hlines
  · rw [htokens]
    exact fun t ht hkind => ⟨hline', hhollow (h.opened t ht hkind).2⟩

theorem Fills.token {s next : Scan} {c : Char} {rest : List Char} (h : s.Fills) (hline : s.atLineStart = false)
    (hrest : s.rest = c :: rest) (htoken : s.token c rest = .ok next) : next.Fills := by
  have hlines := h.lines
  obtain ⟨hsplit, hne, hkind, hlast⟩ := finds_of_token hrest htoken
  rename_i text rest kind
  rw [hline, hsplit] at hlines
  refine ⟨Chained.emit h.chained _ fun t ht hopened => ⟨?_, hlast⟩, ?_, fun t ht hopened => ?_⟩
  · rintro rfl
    cases hkind
  · show hasHollowLine s.atLineStart rest = false
    rw [hline]
    exact hasHollowLine_suffix text hlines
  · cases ht
    rw [show kind = .indent from hopened] at hkind
    cases hkind

/-- One step keeps it so. -/
theorem Fills.step {s next : Scan} (h : s.Fills) (hread : Reads s next) : next.Fills := by
  have hnone (hstart : s.atLineStart = true) : ∀ t ∈ s.tokens.head?, t.kind ≠ .indent :=
    fun t ht hkind => Bool.noConfusion (hstart.symm.trans (h.opened t ht hkind).1)
  have hlines := h.lines
  cases hread with
  | lastLine hstart => exact ⟨h.chained, rfl, fun t ht hkind => absurd hkind (hnone hstart t ht)⟩
  | @emptyLine blanks text after hstart hrest =>
    refine ⟨h.chained, ?_, fun t ht hkind => absurd hkind (hnone hstart t ht)⟩
    rw [hrest, ← List.append_assoc] at hlines
    exact hasHollowLine_mono (hasHollowLine_after _ hlines)
  | @indented blanks rest c _ hstart hrest hblanks hc hend hindent =>
    rw [hrest, hstart] at hlines
    have hline : Fills { s.advance blanks.length (c :: rest) with atLineStart := false } :=
      ⟨h.chained, hasHollowLine_suffix _ hlines, fun t ht hkind => absurd hkind (hnone hstart t ht)⟩
    exact hline.indented (hnone hstart) rfl (isHollow_of_line hblanks hc hend hlines) hindent
  | lineEnd _ hrest => exact h.newline hrest
  | @blank c rest hline hrest hc =>
    refine h.within hline (show s.rest = [c] ++ rest from hrest) ⟨rfl, rfl, hline⟩ fun hhollow => ?_
    rw [hrest] at hhollow
    simp only [List.mem_cons, List.not_mem_nil, or_false] at hc
    rcases hc with rfl | rfl | rfl | rfl <;> exact hhollow
  | @comment text rest hline hrest htext =>
    refine h.within hline hrest ⟨rfl, rfl, hline⟩ fun hhollow => ?_
    obtain ⟨comment, rfl⟩ := List.head?_eq_some_iff.mp htext.1
    rw [hrest] at hhollow
    cases hhollow
  | @join rest hline hrest =>
    refine h.within hline (show s.rest = ['\\', '\n'] ++ rest from hrest) ⟨rfl, rfl, hline⟩ fun hhollow => ?_
    rw [hrest] at hhollow
    exact hhollow
  | token hline hrest _ _ htoken => exact h.token hline hrest htoken

theorem Fills.reaches {k : Nat} {s last : Scan} (h : s.Fills) (hreach : Reaches k s last) :
    last.Fills := by
  induction hreach with
  | refl s => exact h
  | step hrest hstep _ ih => exact ih (h.step ((step_eq_ok_iff hrest).mp hstep))

theorem Fills.finish {s : Scan} (h : s.Fills) (hrest : s.rest = []) : BlocksStart s.finish := by
  have hlast : ∀ t ∈ s.tokens.head?, t.kind ≠ .indent := fun t ht hkind => by
    have := (h.opened t ht hkind).2
    rw [hrest] at this
    cases this
  unfold Scan.finish
  extract_lets ended closed
  have hended : ended.Chained ∧ ∀ t ∈ ended.tokens.head?, t.kind ≠ .indent := by
    have hnewline : (s.emit .newline s.column).Chained ∧
        ∀ t ∈ (s.emit .newline s.column).tokens.head?, t.kind ≠ .indent :=
      ⟨h.chained.emit _ fun t ht hkind => absurd hkind (hlast t ht), fun t ht => by cases ht; nofun⟩
    unfold ended
    split
    · exact ⟨h.chained, hlast⟩
    · split
      · exact ⟨h.chained, hlast⟩
      · exact ⟨h.chained, hlast⟩
      · exact hnewline
  obtain ⟨hchained, hclosed⟩ := Chained.closeBlocks 0 ended.indents hended.1 hended.2
  exact List.isChain_reverse.mpr (hchained.emit _ fun t ht hkind => absurd hkind (hclosed t ht))

end Scan

/-- In a text without a hollow line, no block ends right where it is opened. -/
theorem blocksStart_of_tokenize {text : String} (hlines : ¬ HasHollowLine text) {ts : List Token}
    (h : tokenize text = .ok ts) : BlocksStart ts := by
  obtain ⟨k, last, hreach, hrest, rfl⟩ := tokenize_ok_iff.mp h
  have hstart : (Scan.start text).Fills := ⟨.nil, Bool.eq_false_iff.mpr hlines, nofun⟩
  exact (hstart.reaches hreach).finish hrest

/-! ### What the parser returns -/

namespace Parser

/-- Every rule of the grammar leaves tokens in which no block ends right where it is opened. -/
theorem kept : Congruence Eq fun p _ => Yields BlocksStart p fun _ => True :=
  yields_congruence List.IsChain.tail

end Parser

open ProgramBreeding.Source.Parser

namespace Level

/-- The blocks of a level are not empty, and neither are those in their statements. -/
structure FillsBlocks (inner : Level) : Prop where
  kept : Related (fun p _ => Yields BlocksStart p fun _ => True) inner inner
  block : Yields BlocksStart inner.block fun body => body ≠ [] ∧ Block.IsFilled body

section Rules

variable {inner : Level} (h : inner.FillsBlocks)
include h

theorem yields_expressionStatement (line : Line) :
    Yields BlocksStart (inner.expressionStatement line) Stmt.IsFilled := by
  refine h.kept.orExpr.bind fun first _ => (kept.refuse _ _).bind fun _ _ =>
    Yields.current.bind fun t _ => .ite ?_ ?_
  · exact kept.advance.bind fun _ _ => (kept.checkTarget first).bind fun _ _ =>
      h.kept.orExpr.bind fun value _ => (kept.refuse _ _).bind fun _ _ =>
      .pure (Stmt.isFilled_of_children rfl (by simp [Node.children]))
  · split
    · exact kept.advance.bind fun _ _ => (kept.checkTarget first).bind fun _ _ =>
        h.kept.orExpr.bind fun value _ =>
        .pure (Stmt.isFilled_of_children rfl (by simp [Node.children]))
    · exact .pure (Stmt.isFilled_of_children rfl (by simp [Node.children]))

theorem yields_simpleStatement : Yields BlocksStart inner.simpleStatement Stmt.IsFilled := by
  refine Yields.current.bind fun t _ => ?_
  split
  · exact kept.advance.bind fun _ _ => .pure (Stmt.isFilled_of_children rfl (by simp [Node.children]))
  · exact kept.advance.bind fun _ _ => .pure (Stmt.isFilled_of_children rfl (by simp [Node.children]))
  · exact kept.advance.bind fun _ _ => .pure (Stmt.isFilled_of_children rfl (by simp [Node.children]))
  · exact kept.advance.bind fun _ _ => (kept.returnValue h.kept).bind fun value _ =>
      .pure (Stmt.isFilled_of_children rfl (by simp [Node.children]))
  · exact yields_expressionStatement h _

/-- Statements have been read before, or at least one is read. -/
theorem yields_lineAfter : ∀ (count : Nat) (found : List (Stmt Line)), Block.IsFilled found →
    (found ≠ [] ∨ 0 < count) →
      Yields BlocksStart (inner.lineAfter count found) fun body => body ≠ [] ∧ Block.IsFilled body
  | 0, found, hfound, hsome => by
    have hne : found ≠ [] := hsome.resolve_right (Nat.lt_irrefl 0)
    exact .pure ⟨by simpa using hne, fun s hs => hfound s (List.mem_reverse.mp hs)⟩
  | count + 1, found, hfound, _ => by
    refine (yields_simpleStatement h).bind fun s hs => (kept.eat? _).bind fun _ _ =>
      kept.atNewline.bind fun _ _ => kept.atEnd.bind fun _ _ => ?_
    have hmore : Block.IsFilled (s :: found) := List.forall_mem_cons.mpr ⟨hs, hfound⟩
    exact .ite (.pure ⟨by simp, fun s' hs' => hmore s' (List.mem_reverse.mp hs')⟩)
      (yields_lineAfter count _ hmore (.inl (List.cons_ne_nil _ _)))

theorem yields_simpleStatements {bound : Nat} (hbound : 0 < bound) :
    Yields BlocksStart (inner.simpleStatements bound) fun body => body ≠ [] ∧ Block.IsFilled body :=
  (yields_lineAfter h bound [] nofun (.inr hbound)).bind fun _ hfound =>
    kept.eatNewline?.bind fun _ _ => kept.atEnd.bind fun _ _ =>
    .ite ((Yields.failExpecting (P := fun _ => False) _).bind fun _ h => h.elim) (.pure hfound)

theorem yields_suite :
    Yields BlocksStart inner.suite fun body => body ≠ [] ∧ Block.IsFilled body :=
  (kept.expect _).bind fun _ _ => h.block

theorem yields_functionDef (bound : Nat) (line : Line) :
    Yields BlocksStart (inner.functionDef bound line) Stmt.IsFilled :=
  kept.name.bind fun _ _ => (kept.expect _).bind fun _ _ => (kept.paramsAfter bound []).bind fun _ _ =>
    (yields_suite h).bind fun _ ⟨hne, hbody⟩ => .pure <|
      Stmt.isFilled_of_children (List.isEmpty_eq_false_iff.mpr hne)
        (by simpa [Node.children, Block.IsFilled] using hbody)

/-- The alternatives of a conditional may be left out. -/
theorem yields_alternatives : ∀ count : Nat,
    Yields BlocksStart (inner.alternatives count) Block.IsFilled
  | 0 => .pure nofun
  | count + 1 => by
    refine Yields.current.bind fun t _ => ?_
    split
    · exact kept.advance.bind fun _ _ => h.kept.orExpr.bind fun test _ =>
        (yields_suite h).bind fun body ⟨hne, hbody⟩ =>
        (yields_alternatives count).bind fun orelse horelse =>
        .pure (List.forall_mem_singleton.mpr (Stmt.isFilled_ifElse hne hbody horelse))
    · exact kept.advance.bind fun _ _ => (yields_suite h).mono fun _ hbody => hbody.2
    · exact .pure nofun

theorem yields_conditional (bound : Nat) (line : Line) :
    Yields BlocksStart (inner.conditional bound line) Stmt.IsFilled :=
  h.kept.orExpr.bind fun _ _ => (yields_suite h).bind fun _ ⟨hne, hbody⟩ =>
    (yields_alternatives h bound).bind fun _ horelse => .pure (Stmt.isFilled_ifElse hne hbody horelse)

theorem yields_whileStatement (line : Line) :
    Yields BlocksStart (inner.whileStatement line) Stmt.IsFilled :=
  h.kept.orExpr.bind fun _ _ => (yields_suite h).bind fun _ ⟨hne, hbody⟩ =>
    (kept.refuse _ _).bind fun _ _ => .pure <|
      Stmt.isFilled_of_children (List.isEmpty_eq_false_iff.mpr hne)
        (by simpa [Node.children, Block.IsFilled] using hbody)

theorem yields_forStatement (line : Line) :
    Yields BlocksStart (inner.forStatement line) Stmt.IsFilled :=
  kept.name.bind fun _ _ => (kept.refuse _ _).bind fun _ _ => (kept.expect _).bind fun _ _ =>
    h.kept.orExpr.bind fun _ _ => (yields_suite h).bind fun _ ⟨hne, hbody⟩ =>
    (kept.refuse _ _).bind fun _ _ => .pure <|
      Stmt.isFilled_of_children (List.isEmpty_eq_false_iff.mpr hne)
        (by simpa [Node.children, Block.IsFilled] using hbody)

/-- The statements of a line are never none. -/
theorem yields_statement {bound : Nat} (hbound : 0 < bound) :
    Yields BlocksStart (inner.statement bound) fun body => body ≠ [] ∧ Block.IsFilled body := by
  have hone {p : Parser (Stmt Line)} (hp : Yields BlocksStart p Stmt.IsFilled) :
      Yields BlocksStart (do return [← p]) fun body => body ≠ [] ∧ Block.IsFilled body :=
    hp.bind fun s hs => .pure ⟨List.cons_ne_nil _ _, List.forall_mem_singleton.mpr hs⟩
  refine Yields.current.bind fun t _ => ?_
  split
  · exact kept.advance.bind fun _ _ => hone (yields_functionDef h bound _)
  · exact kept.advance.bind fun _ _ => hone (yields_conditional h bound _)
  · exact kept.advance.bind fun _ _ => hone (yields_whileStatement h _)
  · exact kept.advance.bind fun _ _ => hone (yields_forStatement h _)
  · exact .ite (.fail _) (yields_simpleStatements h hbound)
  · exact .fail _
  · exact yields_simpleStatements h hbound

theorem yields_blockAfter {bound : Nat} (hbound : 0 < bound) :
    ∀ (count : Nat) (found : List (Stmt Line)), found ≠ [] → Block.IsFilled found →
      Yields BlocksStart (inner.blockAfter bound count found)
        fun body => body ≠ [] ∧ Block.IsFilled body
  | 0, found, hne, hfound => .pure (reversed hne hfound)
  | count + 1, found, hne, hfound => by
    refine Yields.current.bind fun t _ => ?_
    split
    · exact kept.advance.bind fun _ _ => .pure (reversed hne hfound)
    · exact .pure (reversed hne hfound)
    · refine (yields_statement h hbound).bind fun ss ⟨_, hss⟩ =>
        yields_blockAfter hbound count _ (by simp [hne]) fun s hs => ?_
      rcases List.mem_append.mp hs with hs | hs
      · exact hss s (List.mem_reverse.mp hs)
      · exact hfound s hs
where
  reversed {found : List (Stmt Line)} (hne : found ≠ []) (hfound : Block.IsFilled found) :
      found.reverse ≠ [] ∧ Block.IsFilled found.reverse :=
    ⟨by simpa using hne, fun s hs => hfound s (List.mem_reverse.mp hs)⟩

/-- What is read at a token that ends no block starts with a statement. -/
theorem yields_blockAfter_cons {bound count : Nat} (hbound : 0 < bound) (hcount : 0 < count) {t : Token}
    {ts : List Token} (hts : BlocksStart (t :: ts)) (hkind : t.kind ≠ .dedent ∧ t.kind ≠ .endOfInput)
    {body : Block Line} {rest : List Token}
    (hrun : inner.blockAfter bound count [] (t :: ts) = .ok (body, rest)) :
    (body ≠ [] ∧ Block.IsFilled body) ∧ BlocksStart rest := by
  obtain ⟨count, rfl⟩ : ∃ n, count = n + 1 := ⟨count - 1, by omega⟩
  obtain ⟨_, _, hcurrent, hrun⟩ := bind_eq_ok.mp hrun
  cases hcurrent
  refine (?_ : Yields BlocksStart _ fun body => body ≠ [] ∧ Block.IsFilled body) _ hts body rest hrun
  split
  · rename_i hdedent
    exact absurd hdedent hkind.1
  · rename_i hend
    exact absurd hend hkind.2
  · refine (yields_statement h hbound).bind fun ss ⟨hne, hss⟩ => ?_
    rw [List.append_nil]
    exact yields_blockAfter h hbound count _ (by simpa using hne)
      fun s hs => hss s (List.mem_reverse.mp hs)

/-- Right after the start of a block no block ends, so a statement is read. -/
theorem yields_blockRule {bound : Nat} (hbound : 0 < bound) :
    Yields BlocksStart (inner.blockRule bound) fun body => body ≠ [] ∧ Block.IsFilled body := by
  refine kept.eatNewline?.bind fun _ _ => .ite ?_ (yields_simpleStatements h hbound)
  -- `Yields.current` forgets which token comes first, so the run is taken apart here.
  intro ts hts body rest hrun
  obtain ⟨t, between, hcurrent, hrun⟩ := bind_eq_ok.mp hrun
  by_cases hindent : t.kind = .indent
  · rw [hindent] at hrun
    obtain ⟨_, after, hadvance, hrun⟩ := bind_eq_ok.mp hrun
    match ts with
    | [] =>
      cases hcurrent
      cases hindent
    | [_] =>
      cases hcurrent
      cases hadvance
      -- The last token stays where it is, and it opens a block.
      exact yields_blockAfter_cons h hbound hbound hts (by rw [hindent]; exact ⟨nofun, nofun⟩) hrun
    | _ :: u :: us =>
      cases hcurrent
      cases hadvance
      have hnext := List.isChain_cons_cons.mp hts
      exact yields_blockAfter_cons h hbound hbound hnext.2 (hnext.1 hindent) hrun
  · have hbetween : BlocksStart between := (Yields.current ts hts t between hcurrent).2
    refine (?_ : Yields BlocksStart _ fun body => body ≠ [] ∧ Block.IsFilled body) _ hbetween body rest
      hrun
    split
    · rename_i h'
      exact absurd h' hindent
    · exact .failExpecting _

end Rules

theorem FillsBlocks.outward {inner : Level} (h : inner.FillsBlocks) {bound : Nat} (hbound : 0 < bound) :
    (inner.outward bound).FillsBlocks where
  kept := Parser.kept.outward h.kept bound
  block := yields_blockRule h hbound

end Level

theorem fillsBlocks_level {bound : Nat} (hbound : 0 < bound) : ∀ n, (level bound n).FillsBlocks
  | 0 => ⟨kept.level bound 0, .fail _⟩
  | n + 1 => (fillsBlocks_level hbound n).outward hbound

theorem yields_programAfter {inner : Level} (h : inner.FillsBlocks) {bound : Nat} (hbound : 0 < bound) :
    ∀ (count : Nat) (found : List (Stmt Line)), Block.IsFilled found →
      Yields BlocksStart (programAfter bound inner count found) Block.IsFilled
  | 0, found, hfound => .pure fun s hs => hfound s (List.mem_reverse.mp hs)
  | count + 1, found, hfound => by
    refine Yields.current.bind fun t _ => ?_
    split
    · exact .pure fun s hs => hfound s (List.mem_reverse.mp hs)
    · exact kept.advance.bind fun _ _ => yields_programAfter h hbound count found hfound
    · refine (Level.yields_statement h hbound).bind fun ss ⟨_, hss⟩ =>
        yields_programAfter h hbound count _ fun s hs => ?_
      rcases List.mem_append.mp hs with hs | hs
      · exact hss s (List.mem_reverse.mp hs)
      · exact hfound s hs

/-- If no block ends right where it is opened, no body of the program is empty. -/
theorem isFilled_of_parseTokens {ts : List Token} (hts : BlocksStart ts) {body : Block Line}
    (h : parseTokens ts = .ok body) : Block.IsFilled body := by
  cases ts with
  | nil => cases h; nofun
  | cons t ts =>
    have hbound : 0 < (t :: ts).length := Nat.succ_pos _
    exact parseTokens_yields
      (yields_programAfter (fillsBlocks_level hbound maxNesting) hbound _ [] nofun) hts h

/-- In the program of a text without a line whose indentation alone is read, the bodies of
functions, loops and conditionals are not empty. -/
theorem hasEmptyBody_eq_false_of_parse {text : String} (hlines : ¬ HasHollowLine text)
    {body : Block Line} (h : parse text = .ok body) :
    ∀ node ∈ Block.nodes body, node.hasEmptyBody = false := by
  obtain ⟨ts, htokens, htree⟩ := parse_eq_ok.mp h
  exact Block.isFilled_iff.mp (isFilled_of_parseTokens (blocksStart_of_tokenize hlines htokens) htree)

/-- A function with a loop, with blank lines and comments at other widths than their blocks. -/
def loops : String := "def f(x):\n\n  # all\n    for y in x:\n \n\tpass\n"

theorem hasEmptyBody_eq_false_of_parse_loops : ∃ body, ¬ HasHollowLine loops ∧ parse loops = .ok body ∧
    ∀ node ∈ Block.nodes body, node.hasEmptyBody = false := by
  have hlines : ¬ HasHollowLine loops := by decide
  have hparsed : (parse loops).isOk = true := by decide +kernel
  cases h : parse loops with
  | error e =>
    rw [h] at hparsed
    cases hparsed
  | ok body => exact ⟨body, hlines, rfl, hasEmptyBody_eq_false_of_parse hlines h⟩

/-- A conditional whose only line is indented and goes on with an empty line. -/
def hollow : String := "if x:\n  \\\n\ny = 1\n"

/-- The body of a conditional can be empty. -/
theorem not_hasEmptyBody_eq_false : ¬ ∀ (text : String) (body : Block Line), parse text = .ok body →
    ∀ node ∈ Block.nodes body, node.hasEmptyBody = false := by
  intro hall
  have hempty : (parse hollow).toOption.any (fun body => (Block.nodes body).any Node.hasEmptyBody) = true := by
    decide +kernel
  cases h : parse hollow with
  | error e =>
    rw [h] at hempty
    cases hempty
  | ok body =>
    rw [h] at hempty
    have hany : (Block.nodes body).any Node.hasEmptyBody = true := hempty
    obtain ⟨node, hnode, hbody⟩ := List.any_eq_true.mp hany
    exact Bool.noConfusion (hbody.symm.trans (hall hollow body h node hnode))

end ProgramBreeding.Source

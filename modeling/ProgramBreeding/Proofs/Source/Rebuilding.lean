import ProgramBreeding.Proofs.Source.Lines
import ProgramBreeding.Proofs.Source.Reading

/-!
# Reading back the tokens of a program

The parser reads the tokens of statements that can be written down as the statements,
with `pass` in the bodies that are empty.

## Main definitions

* `Stmt.filled`, `Block.filled` — the statements with `pass` in every empty body.
* `Follows` — the tokens that can stand after a statement.
* `Rebuilds` — a statement is read back from its tokens.

## Design notes

A conditional goes on as long as `elif` or `else` is next, and a loop must not be followed
by `else`.  No statement starts with these words, so what stands after a statement of a
block is never taken for a part of it.
-/

namespace ProgramBreeding

variable {α : Type}

/-- A body with `pass` in it, if it is empty. -/
def Block.orPass (tag : α) (body : Block α) : Block α :=
  if body.isEmpty then [.pass tag] else body

mutual

/-- The statement with `pass` in every empty body. -/
def Stmt.filled : Stmt α → Stmt α
  | .functionDef tag name params body =>
    .functionDef tag name params (Block.orPass tag (Block.filled body))
  | .forLoop tag var source body => .forLoop tag var source (Block.orPass tag (Block.filled body))
  | .whileLoop tag test body => .whileLoop tag test (Block.orPass tag (Block.filled body))
  | .ifElse tag test body orelse =>
    .ifElse tag test (Block.orPass tag (Block.filled body)) (Block.filled orelse)
  | s => s

/-- The statements with `pass` in every empty body. -/
def Block.filled : List (Stmt α) → List (Stmt α)
  | [] => []
  | s :: rest => s.filled :: Block.filled rest

end

@[simp] theorem Block.isEmpty_filled (body : Block α) :
    List.isEmpty (Block.filled body) = List.isEmpty body := by
  cases body <;> rfl

end ProgramBreeding

namespace ProgramBreeding.Source

open ProgramBreeding.Source.Parser Level

variable {α : Type}

/-- The shape of a statement: its tags forgotten. -/
abbrev shapeOfStmt (s : Stmt α) : Stmt Unit := s.map fun _ => ()

theorem shape_append : ∀ body more : Block α,
    Block.shape (body ++ more) = Block.shape body ++ Block.shape more
  | [], _ => rfl
  | s :: rest, more => congrArg (s.map (fun _ => ()) :: ·) (shape_append rest more)

theorem isAssignable_shapeOf (e : Expr α) : (shapeOf e).isAssignable = e.isAssignable := by
  cases e <;> rfl

/-! ### Running parsers -/

namespace Parser

/-- Whether a token ends a logical line. -/
def isNewline : TokenKind → Bool
  | .newline => true
  | _ => false

/-- Whether a token ends the input. -/
def isEnd : TokenKind → Bool
  | .endOfInput => true
  | _ => false

theorem atNewline_cons (t : Token) (rest : List Token) :
    atNewline (t :: rest) = .ok (isNewline t.kind, t :: rest) := by
  refine (bind_run (current_cons t rest)).trans ?_
  cases t.kind <;> rfl

theorem atEnd_cons (t : Token) (rest : List Token) :
    atEnd (t :: rest) = .ok (isEnd t.kind, t :: rest) := by
  refine (bind_run (current_cons t rest)).trans ?_
  cases t.kind <;> rfl

theorem eatNewline?_hit {t : Token} {rest : List Token} (ht : t.kind = .newline)
    (hrest : rest ≠ []) : eatNewline? (t :: rest) = .ok (true, rest) := by
  refine (bind_run (atNewline_cons t rest)).trans ?_
  rw [ht]
  exact bind_run (advance_cons t hrest)

end Parser

/-! ### Around a statement -/

/-- The tokens that can stand after a statement: none of them goes on with it. -/
def Follows (rest : List Token) : Prop :=
  ∃ t more, rest = t :: more ∧ t.kind.isSymbol .kwElif = false ∧ t.kind.isSymbol .kwElse = false

/-- The tokens that a statement without blocks can start with. -/
def StartsSimple (kind : TokenKind) : Prop :=
  (∃ y, opening kind = some y) ∨
    ∃ symbol ∈ [Symbol.kwReturn, .kwPass, .kwBreak, .kwContinue], kind = .symbol symbol

/-- The tokens that a statement can start with. -/
def Starts (kind : TokenKind) : Prop :=
  StartsSimple kind ∨ ∃ symbol ∈ [Symbol.kwDef, .kwIf, .kwWhile, .kwFor], kind = .symbol symbol

theorem starts_expression (e : Expr α) :
    ∃ kind more, expressionKinds e = kind :: more ∧ ∃ y, opening kind = some y := by
  obtain ⟨kind, more, y, hkinds, hopen, -⟩ :=
    encloseKinds_lead (bareKinds_lead e) (show Strength.or ≤ 10 by decide)
  exact ⟨kind, more, hkinds, y, hopen⟩

theorem starts_stmt (s : Stmt α) : ∃ kind more, stmtKinds s = kind :: more ∧ Starts kind := by
  have hexpression : ∀ (e : Expr α) (tail : List TokenKind),
      ∃ kind more, expressionKinds e ++ tail = kind :: more ∧ Starts kind := by
    intro e tail
    obtain ⟨kind, more, hkinds, hopen⟩ := starts_expression e
    exact ⟨kind, more ++ tail, by rw [hkinds]; rfl, .inl (.inl hopen)⟩
  cases s with
  | functionDef => exact ⟨_, _, rfl, .inr ⟨.kwDef, by decide, rfl⟩⟩
  | ret tag value =>
    cases value with
    | none => exact ⟨_, _, rfl, .inl (.inr ⟨.kwReturn, by decide, rfl⟩)⟩
    | some e => exact ⟨_, _, rfl, .inl (.inr ⟨.kwReturn, by decide, rfl⟩)⟩
  | assign => exact hexpression _ _
  | augAssign => exact hexpression _ _
  | forLoop => exact ⟨_, _, rfl, .inr ⟨.kwFor, by decide, rfl⟩⟩
  | whileLoop => exact ⟨_, _, rfl, .inr ⟨.kwWhile, by decide, rfl⟩⟩
  | ifElse => exact ⟨_, _, rfl, .inr ⟨.kwIf, by decide, rfl⟩⟩
  | expr => exact hexpression _ _
  | pass => exact ⟨_, _, rfl, .inl (.inr ⟨.kwPass, by decide, rfl⟩)⟩
  | brk => exact ⟨_, _, rfl, .inl (.inr ⟨.kwBreak, by decide, rfl⟩)⟩
  | cont => exact ⟨_, _, rfl, .inl (.inr ⟨.kwContinue, by decide, rfl⟩)⟩

/-- A symbol that no expression starts with and that is no keyword of a statement does not
start a statement. -/
theorem Starts.isSymbol_eq {kind : TokenKind} (h : Starts kind) {symbol : Symbol}
    (hopen : opening (.symbol symbol) = none)
    (hsymbol : symbol ∉ [Symbol.kwReturn, .kwPass, .kwBreak, .kwContinue, .kwDef, .kwIf, .kwWhile, .kwFor]) :
    kind.isSymbol symbol = false := by
  refine isSymbol_eq_false fun hkind => ?_
  subst hkind
  rcases h with (⟨y, hy⟩ | ⟨other, hother, heq⟩) | ⟨other, hother, heq⟩
  · rw [hopen] at hy
    cases hy
  all_goals
    cases heq
    exact hsymbol (by simp only [List.mem_cons, List.not_mem_nil, or_false] at hother ⊢; grind)

theorem Starts.follows {t : Token} (h : Starts t.kind) (rest : List Token) : Follows (t :: rest) :=
  ⟨t, rest, rfl, h.isSymbol_eq rfl (by decide), h.isSymbol_eq rfl (by decide)⟩

theorem Follows.ne_nil {rest : List Token} (h : Follows rest) : rest ≠ [] := by
  obtain ⟨t, more, rfl, -⟩ := h
  exact List.cons_ne_nil _ _

/-! ### Statements without blocks -/

/-- An expression in a statement is read up to something that does not belong to it. -/
theorem expression_run {bound n : Nat} {e : Expr α} (hfits : e.FitsStmt n) (ts rest : List Token)
    (hts : ts.map Token.kind = expressionKinds e) (hrest : rest ≠ [])
    (hbound : (ts ++ rest).length ≤ bound) (hend : continuation (rest.map Token.kind) = 0) :
    ∃ e', shapeOf e' = shapeOf e ∧ (level bound n).expression (ts ++ rest) = .ok (e', rest) := by
  obtain ⟨n, rfl⟩ := Nat.exists_eq_succ_of_ne_zero (Nat.pos_iff_ne_zero.mp hfits.1)
  exact (complete bound e).orExpr_run hfits.2 ts rest hts hrest hbound hend

/-- Before the end of a line the tokens are read as a statement without blocks. -/
def ReadsSimple (bound n : Nat) (s : Stmt α) (kinds : List TokenKind) : Prop :=
  ∀ (ts rest : List Token) (last : Token), ts.map Token.kind = kinds → last.kind = .newline →
    (ts ++ last :: rest).length ≤ bound →
      ∃ s', shapeOfStmt s' = shapeOfStmt s ∧
        (level bound n).simpleStatement (ts ++ last :: rest) = .ok (s', last :: rest)

/-- A statement is read back from its tokens with a number of levels left. -/
def Rebuilds (bound n : Nat) (s : Stmt α) : Prop :=
  ∀ ts rest : List Token, ts.map Token.kind = stmtKinds s → Follows rest →
    (ts ++ rest).length ≤ bound →
      ∃ s', shapeOfStmt s' = shapeOfStmt s.filled ∧
        statement bound (level bound n) (ts ++ rest) = .ok ([s'], rest)

/-- A statement without blocks is read as the only one of its line. -/
theorem statement_simple {bound : Nat} {inner : Level} {t : Token} (ts : List Token)
    (ht : StartsSimple t.kind) :
    statement bound inner (t :: ts) = inner.simpleStatements bound (t :: ts) := by
  refine (bind_run (current_cons t ts)).trans (congrFun (?_ : _ = inner.simpleStatements bound) _)
  generalize t.kind = kind at ht
  rcases ht with ⟨y, hopen⟩ | ⟨symbol, hsymbol, rfl⟩
  · cases kind with
    | symbol symbol => cases symbol <;> first | rfl | exact nomatch hopen
    | indent => exact nomatch hopen
    | _ => rfl
  · simp only [List.mem_cons, List.not_mem_nil, or_false] at hsymbol
    rcases hsymbol with rfl | rfl | rfl | rfl <;> rfl

/-- A line that holds one statement. -/
theorem ReadsSimple.rebuilds {bound n : Nat} {s : Stmt α} {kinds : List TokenKind}
    (h : ReadsSimple bound n s kinds) (hkinds : stmtKinds s = kinds ++ [.newline])
    (hlead : ∃ kind more, kinds = kind :: more ∧ StartsSimple kind) (hfilled : s.filled = s) :
    Rebuilds bound n s := by
  intro ts rest hts hfollows hbound
  obtain ⟨line, ends, rfl, hline, hends⟩ := List.map_eq_append_iff.mp (hts.trans hkinds)
  obtain ⟨last, tail, rfl, hlast, htail⟩ := List.map_eq_cons_iff.mp hends
  cases List.map_eq_nil_iff.mp htail
  rw [List.append_assoc, List.singleton_append] at hbound ⊢
  obtain ⟨s', hshape, hrun⟩ := h line rest last hline hlast hbound
  obtain ⟨kind, more, hkinds', hstarts⟩ := hlead
  obtain ⟨t, line, rfl, ht, -⟩ := List.map_eq_cons_iff.mp (hline.trans hkinds')
  obtain ⟨count, rfl⟩ : ∃ count, bound = count + 1 := Nat.exists_eq_succ_of_ne_zero fun hzero => by
    simp [hzero] at hbound
  refine ⟨s', by rw [hfilled, hshape], ?_⟩
  have hnoSemicolon : last.kind.isSymbol .semicolon = false := by rw [hlast]; rfl
  have hlineRun : (level (count + 1) n).lineAfter (count + 1) [] (t :: line ++ last :: rest) =
      .ok ([s'], last :: rest) := by
    refine (bind_run hrun).trans ((bind_run (eat?_miss rest hnoSemicolon)).trans ?_)
    refine (bind_run (atNewline_cons last rest)).trans ((bind_run (atEnd_cons last rest)).trans ?_)
    rfl
  refine (statement_simple _ (ht ▸ hstarts)).trans ((bind_run hlineRun).trans ?_)
  refine (bind_run (eatNewline?_hit hlast hfollows.ne_nil)).trans ?_
  obtain ⟨u, rest, rfl, -⟩ := hfollows
  exact bind_run (atEnd_cons u rest)

/-- The rule of a statement without blocks is chosen by its keyword. -/
theorem simpleStatement_keyword {inner : Level} {t : Token} (rest : List Token) {symbol : Symbol}
    (ht : t.kind = .symbol symbol) (p : Line → Parser (Stmt Line))
    (hrule : ∀ line column, simpleStatement inner (⟨.symbol symbol, line, column⟩ :: rest) =
      p line (⟨.symbol symbol, line, column⟩ :: rest)) :
    simpleStatement inner (t :: rest) = p t.line (t :: rest) := by
  obtain ⟨kind, line, column⟩ := t
  cases ht
  exact hrule line column

/-- A keyword that is a statement of its own. -/
theorem readsSimple_keyword {bound n : Nat} {symbol : Symbol} {s : Stmt α} (make : Line → Stmt Line)
    (hshape : ∀ line, shapeOfStmt (make line) = shapeOfStmt s)
    (hrule : ∀ inner line column rest,
      simpleStatement inner (⟨.symbol symbol, line, column⟩ :: rest) = (do
        advance
        return make line) (⟨.symbol symbol, line, column⟩ :: rest)) :
    ReadsSimple bound n s [.symbol symbol] := by
  intro ts rest last hts _ _
  obtain ⟨t, tail, rfl, ht, htail⟩ := List.map_eq_cons_iff.mp hts
  cases List.map_eq_nil_iff.mp htail
  refine ⟨make t.line, hshape t.line, ?_⟩
  refine (simpleStatement_keyword _ ht (fun line => do
    advance
    return make line) fun line column => hrule _ line column _).trans ?_
  exact bind_run (advance_cons t (List.cons_ne_nil _ _))

theorem readsSimple_ret {bound n : Nat} (tag : α) {value : Option (Expr α)}
    (hfits : ∀ e, value = some e → e.FitsStmt n) :
    ReadsSimple bound n (.ret tag value)
      (.symbol .kwReturn :: (match value with | none => [] | some e => expressionKinds e)) := by
  intro ts rest last hts hlast hbound
  obtain ⟨t, ts, rfl, ht, hts⟩ := List.map_eq_cons_iff.mp hts
  have hreturn : ∀ {value' : Option (Expr Line)},
      (level bound n).returnValue (ts ++ last :: rest) = .ok (value', last :: rest) →
        (level bound n).simpleStatement (t :: (ts ++ last :: rest)) =
          .ok (.ret t.line value', last :: rest) := by
    intro value' hrun
    refine (simpleStatement_keyword _ ht (fun line => do
      advance
      return .ret line (← (level bound n).returnValue)) fun _ _ => rfl).trans ?_
    exact (bind_run (advance_cons t (by simp))).trans (bind_run hrun)
  cases value with
  | none =>
    cases List.map_eq_nil_iff.mp hts
    refine ⟨.ret t.line none, rfl, hreturn ((bind_run (atNewline_cons last rest)).trans ?_)⟩
    rw [hlast]
    exact (bind_run (atEnd_cons last rest)).trans (bind_run (at?_cons last rest .semicolon))
  | some e =>
    obtain ⟨e', hshape, hrun⟩ := expression_run (hfits e rfl) ts (last :: rest) hts
      (List.cons_ne_nil _ _) (Nat.le_trans (Nat.le_succ _) hbound)
      (by rw [List.map_cons, hlast]; rfl)
    refine ⟨.ret t.line (some e'), congrArg (fun e => Stmt.ret () (some e)) hshape, hreturn ?_⟩
    obtain ⟨kind, more, hkinds, y, hopen⟩ := starts_expression e
    obtain ⟨u, ts, rfl, hu, -⟩ := List.map_eq_cons_iff.mp (hts.trans hkinds)
    have hnothing : isNewline u.kind = false ∧ isEnd u.kind = false ∧
        u.kind.isSymbol .semicolon = false := by
      rw [hu]
      refine ⟨?_, ?_, not_closing_of_opening hopen rfl⟩
      all_goals cases kind <;> first | rfl | cases hopen
    refine (bind_run (atNewline_cons u _)).trans ((bind_run (atEnd_cons u _)).trans ?_)
    refine (bind_run (at?_cons u _ .semicolon)).trans ?_
    rw [hnothing.1, hnothing.2.1, hnothing.2.2]
    exact bind_run hrun

/-- A statement that starts with an expression. -/
theorem simpleStatement_expression {inner : Level} {t : Token} (ts : List Token)
    (ht : ∃ y, opening t.kind = some y) :
    inner.simpleStatement (t :: ts) = inner.expressionStatement t.line (t :: ts) := by
  refine (bind_run (current_cons t ts)).trans (congrFun (?_ : _ = inner.expressionStatement t.line) _)
  obtain ⟨y, hopen⟩ := ht
  split
  iterate 4
    rename_i hkind
    rw [hkind] at hopen
    cases hopen
  rfl

/-- The first expression of a statement, and what is done after it. -/
theorem expressionStatement_run {bound n : Nat} {e : Expr α} (hfits : e.FitsStmt n)
    {ts rest : List Token} (t : Token) (hts : ts.map Token.kind = expressionKinds e)
    (hcomma : t.kind.isSymbol .comma = false) (hend : continuation (t.kind :: rest.map Token.kind) = 0)
    (hbound : (ts ++ t :: rest).length ≤ bound) :
    ∃ (line : Line) (e' : Expr Line), shapeOf e' = shapeOf e ∧
      (level bound n).simpleStatement (ts ++ t :: rest) = (do
        let t ← current
        if t.kind.isSymbol .eq then
          advance
          checkTarget e'
          let value ← (level bound n).expression
          refuse .eq .chainedAssignment
          return .assign line e' value
        match augmentedOp? t.kind with
        | some op =>
          advance
          checkTarget e'
          let value ← (level bound n).expression
          return .augAssign line e' op value
        | none => return .expr line e' : Parser (Stmt Line)) (t :: rest) := by
  obtain ⟨e', hshape, hrun⟩ := expression_run hfits ts (t :: rest) hts (List.cons_ne_nil _ _) hbound hend
  obtain ⟨kind, more, hkinds, hopen⟩ := starts_expression e
  obtain ⟨u, ts, rfl, hu, -⟩ := List.map_eq_cons_iff.mp (hts.trans hkinds)
  refine ⟨u.line, e', hshape, (simpleStatement_expression _ (hu ▸ hopen)).trans ?_⟩
  exact (bind_run hrun).trans (bind_run (refuse_miss rest _ hcomma))

theorem checkTarget_run {target : Expr α} {target' : Expr Line}
    (htarget : target.isAssignable = true) (hshape : shapeOf target' = shapeOf target)
    (ts : List Token) : checkTarget target' ts = .ok ((), ts) := by
  have hassignable : target'.isAssignable = true := by
    rw [← isAssignable_shapeOf, hshape, isAssignable_shapeOf, htarget]
  unfold checkTarget
  rw [hassignable]
  rfl

theorem readsSimple_expr {bound n : Nat} (tag : α) {value : Expr α} (hfits : value.FitsStmt n) :
    ReadsSimple bound n (.expr tag value) (expressionKinds value) := by
  intro ts rest last hts hlast hbound
  obtain ⟨line, value', hshape, hrun⟩ := expressionStatement_run hfits last hts
    (by rw [hlast]; rfl) (by rw [hlast]; rfl) hbound
  refine ⟨.expr line value', congrArg (Stmt.expr ()) hshape, hrun.trans ?_⟩
  refine (bind_run (current_cons last rest)).trans ?_
  rw [hlast]
  rfl

theorem readsSimple_assign {bound n : Nat} (tag : α) {target value : Expr α}
    (htarget : target.isAssignable = true) (hfitsTarget : target.FitsStmt n)
    (hfitsValue : value.FitsStmt n) :
    ReadsSimple bound n (.assign tag target value)
      (expressionKinds target ++ .symbol .eq :: expressionKinds value) := by
  intro ts rest last hts hlast hbound
  obtain ⟨tsTarget, more, rfl, htargetKinds, hmore⟩ := List.map_eq_append_iff.mp hts
  obtain ⟨t, tsValue, rfl, ht, hvalueKinds⟩ := List.map_eq_cons_iff.mp hmore
  rw [List.append_assoc, List.cons_append] at hbound ⊢
  obtain ⟨line, target', htargetShape, hrun⟩ := expressionStatement_run hfitsTarget t htargetKinds
    (by rw [ht]; rfl) (by rw [ht]; rfl) hbound
  have hlength : (tsValue ++ last :: rest).length ≤ bound := by
    simp only [List.length_append, List.length_cons] at hbound ⊢
    omega
  obtain ⟨value', hvalueShape, hvalueRun⟩ := expression_run hfitsValue tsValue (last :: rest) hvalueKinds
    (List.cons_ne_nil _ _) hlength (by rw [List.map_cons, hlast]; rfl)
  have hshape : shapeOfStmt (.assign line target' value') = shapeOfStmt (.assign tag target value) := by
    show Stmt.assign () (shapeOf target') (shapeOf value') = _
    rw [htargetShape, hvalueShape]
    rfl
  refine ⟨.assign line target' value', hshape, hrun.trans ((bind_run (current_cons t _)).trans ?_)⟩
  rw [isSymbol_self ht]
  refine (bind_run (advance_cons t (by simp))).trans ?_
  refine (bind_run (checkTarget_run htarget htargetShape _)).trans ((bind_run hvalueRun).trans ?_)
  exact bind_run (refuse_miss rest _ (by rw [hlast]; rfl))

theorem readsSimple_augAssign {bound n : Nat} (tag : α) {target value : Expr α} {op : BinaryOp}
    (htarget : target.isAssignable = true) (hop : op ≠ .pow) (hfitsTarget : target.FitsStmt n)
    (hfitsValue : value.FitsStmt n) :
    ReadsSimple bound n (.augAssign tag target op value)
      (expressionKinds target ++ .symbol (augmentedSymbol op) :: expressionKinds value) := by
  intro ts rest last hts hlast hbound
  obtain ⟨tsTarget, more, rfl, htargetKinds, hmore⟩ := List.map_eq_append_iff.mp hts
  obtain ⟨t, tsValue, rfl, ht, hvalueKinds⟩ := List.map_eq_cons_iff.mp hmore
  rw [List.append_assoc, List.cons_append] at hbound ⊢
  have hsymbol : t.kind.isSymbol .comma = false ∧ t.kind.isSymbol .eq = false ∧
      augmentedOp? t.kind = some op ∧ ∀ more, continuation (t.kind :: more) = 0 := by
    rw [ht]
    cases op <;> first | exact ⟨rfl, rfl, rfl, fun _ => rfl⟩ | exact absurd rfl hop
  obtain ⟨hcomma, heq, haugmented, hend⟩ := hsymbol
  obtain ⟨line, target', htargetShape, hrun⟩ := expressionStatement_run hfitsTarget t htargetKinds
    hcomma (hend _) hbound
  have hlength : (tsValue ++ last :: rest).length ≤ bound := by
    simp only [List.length_append, List.length_cons] at hbound ⊢
    omega
  obtain ⟨value', hvalueShape, hvalueRun⟩ := expression_run hfitsValue tsValue (last :: rest) hvalueKinds
    (List.cons_ne_nil _ _) hlength (by rw [List.map_cons, hlast]; rfl)
  have hshape : shapeOfStmt (.augAssign line target' op value') =
      shapeOfStmt (.augAssign tag target op value) := by
    show Stmt.augAssign () (shapeOf target') op (shapeOf value') = _
    rw [htargetShape, hvalueShape]
    rfl
  refine ⟨.augAssign line target' op value', hshape,
    hrun.trans ((bind_run (current_cons t _)).trans ?_)⟩
  rw [heq, haugmented]
  refine (bind_run (advance_cons t (by simp))).trans ?_
  exact (bind_run (checkTarget_run htarget htargetShape _)).trans (bind_run hvalueRun)

/-! ### Blocks -/

/-- A loop over statements reads the statements one after the other. -/
theorem stmts_run {bound n : Nat} {loop : Nat → List (Stmt Line) → Parser (Block Line)}
    (hloop : ∀ count found t ts rest s', Starts t.kind →
      statement bound (level bound n) (t :: ts) = .ok ([s'], rest) →
        loop (count + 1) found (t :: ts) = loop count (s' :: found) rest) :
    ∀ (body : Block α) (count : Nat) (found : List (Stmt Line)) (ts rest : List Token),
      (∀ s ∈ body, Rebuilds bound n s) → ts.map Token.kind = blockKinds body → Follows rest →
        (ts ++ rest).length ≤ bound → ts.length ≤ count →
          ∃ count' body', Block.shape body' = Block.shape (Block.filled body) ∧
            count ≤ ts.length + count' ∧
              loop count found (ts ++ rest) = loop count' (body'.reverse ++ found) rest
  | [], count, found, ts, rest, _, hts, _, _, _ => by
    cases List.map_eq_nil_iff.mp hts
    exact ⟨count, [], rfl, Nat.le_add_left _ _, rfl⟩
  | s :: body, count, found, ts, rest, hbody, hts, hfollows, hbound, hcount => by
    obtain ⟨tsStmt, tsMore, rfl, hstmtKinds, hmoreKinds⟩ := List.map_eq_append_iff.mp hts
    obtain ⟨kind, more, hkinds, hstarts⟩ := starts_stmt s
    obtain ⟨t, tsStmt, rfl, ht, -⟩ := List.map_eq_cons_iff.mp (hstmtKinds.trans hkinds)
    have hnext : Follows (tsMore ++ rest) := by
      cases body with
      | nil =>
        cases List.map_eq_nil_iff.mp hmoreKinds
        exact hfollows
      | cons s₂ body =>
        obtain ⟨tsNext, tsRest, rfl, hnextKinds, -⟩ := List.map_eq_append_iff.mp hmoreKinds
        obtain ⟨kind₂, more₂, hkinds₂, hstarts₂⟩ := starts_stmt s₂
        obtain ⟨u, tsNext, rfl, hu, -⟩ := List.map_eq_cons_iff.mp (hnextKinds.trans hkinds₂)
        exact Starts.follows (hu ▸ hstarts₂) _
    rw [List.append_assoc] at hbound ⊢
    obtain ⟨s', hshape, hrun⟩ := hbody s List.mem_cons_self (t :: tsStmt) (tsMore ++ rest) hstmtKinds
      hnext hbound
    simp only [List.length_append, List.length_cons] at hbound hcount
    obtain ⟨count, rfl⟩ : ∃ k, count = k + 1 := Nat.exists_eq_succ_of_ne_zero (by omega)
    obtain ⟨count', body', hshapes, hcount', hruns⟩ := stmts_run hloop body count (s' :: found) tsMore rest
      (fun s hs => hbody s (List.mem_cons_of_mem _ hs)) hmoreKinds hfollows
      (by rw [List.length_append]; omega) (by omega)
    refine ⟨count', s' :: body', ?_, ?_, ?_⟩
    · show shapeOfStmt s' :: Block.shape body' = _
      rw [hshape, hshapes]
      rfl
    · simp only [List.length_append, List.length_cons]
      omega
    · refine (hloop count found t _ _ s' (ht ▸ hstarts) hrun).trans (hruns.trans ?_)
      rw [List.reverse_cons, List.append_assoc]
      rfl

/-- The statements of a block that is written on lines of its own. -/
theorem suite_run {bound n : Nat} {body : Block α} (hbody : ∀ s ∈ body, Rebuilds bound n s)
    {ts rest : List Token}
    (hts : ts.map Token.kind =
      .symbol .colon :: .newline :: .indent :: (blockKinds body ++ [.dedent]))
    (hrest : rest ≠ []) (hbound : (ts ++ rest).length ≤ bound) :
    ∃ body', Block.shape body' = Block.shape (Block.filled body) ∧
      (level bound (n + 1)).suite (ts ++ rest) = .ok (body', rest) := by
  obtain ⟨tColon, ts, rfl, hcolon, hts⟩ := List.map_eq_cons_iff.mp hts
  obtain ⟨tNewline, ts, rfl, hnewline, hts⟩ := List.map_eq_cons_iff.mp hts
  obtain ⟨tIndent, ts, rfl, hindent, hts⟩ := List.map_eq_cons_iff.mp hts
  obtain ⟨tsBody, tsEnd, rfl, hbodyKinds, hend⟩ := List.map_eq_append_iff.mp hts
  obtain ⟨tDedent, tail, rfl, hdedent, htail⟩ := List.map_eq_cons_iff.mp hend
  cases List.map_eq_nil_iff.mp htail
  simp only [List.cons_append, List.append_assoc, List.nil_append, List.length_append,
    List.length_cons] at hbound ⊢
  have hloop : ∀ count found t ts rest s', Starts t.kind →
      statement bound (level bound n) (t :: ts) = .ok ([s'], rest) →
        blockAfter bound (level bound n) (count + 1) found (t :: ts) =
          blockAfter bound (level bound n) count (s' :: found) rest := by
    intro count found t ts rest s' hstarts hrun
    refine (bind_run (current_cons t ts)).trans ?_
    generalize t.kind = kind at hstarts
    rcases hstarts with (⟨y, hopen⟩ | ⟨symbol, _, rfl⟩) | ⟨symbol, _, rfl⟩
    · cases kind with
      | dedent => exact nomatch hopen
      | endOfInput => exact nomatch hopen
      | _ => exact bind_run hrun
    · exact bind_run hrun
    · exact bind_run hrun
  have hfollows : Follows (tDedent :: rest) := ⟨_, _, rfl, by rw [hdedent]; rfl, by rw [hdedent]; rfl⟩
  obtain ⟨count, body', hshape, hcount, hrun⟩ := stmts_run hloop body bound [] tsBody (tDedent :: rest)
    hbody hbodyKinds hfollows (by simp only [List.length_append, List.length_cons]; omega) (by omega)
  obtain ⟨count, rfl⟩ : ∃ k, count = k + 1 := Nat.exists_eq_succ_of_ne_zero (by omega)
  refine ⟨body', hshape, (bind_run (expect_hit hcolon (List.cons_ne_nil _ _))).trans ?_⟩
  refine (bind_run (eatNewline?_hit hnewline (List.cons_ne_nil _ _))).trans ?_
  refine (bind_run (current_cons tIndent _)).trans ?_
  rw [hindent]
  refine (bind_run (advance_cons tIndent (by simp))).trans (hrun.trans ?_)
  refine (bind_run (current_cons tDedent rest)).trans ?_
  rw [hdedent, List.append_nil]
  refine (bind_run (advance_cons tDedent hrest)).trans ?_
  rw [List.reverse_reverse]
  rfl

theorem rebuilds_pass {bound n : Nat} (tag : α) : Rebuilds bound n (.pass tag) := by
  have hreads : ReadsSimple bound n (.pass tag) [.symbol .kwPass] :=
    readsSimple_keyword .pass (fun _ => rfl) fun _ _ _ _ => rfl
  exact hreads.rebuilds rfl ⟨_, _, rfl, .inr ⟨.kwPass, by decide, rfl⟩⟩ rfl

theorem rebuilds_brk {bound n : Nat} (tag : α) : Rebuilds bound n (.brk tag) := by
  have hreads : ReadsSimple bound n (.brk tag) [.symbol .kwBreak] :=
    readsSimple_keyword .brk (fun _ => rfl) fun _ _ _ _ => rfl
  exact hreads.rebuilds rfl ⟨_, _, rfl, .inr ⟨.kwBreak, by decide, rfl⟩⟩ rfl

theorem rebuilds_cont {bound n : Nat} (tag : α) : Rebuilds bound n (.cont tag) := by
  have hreads : ReadsSimple bound n (.cont tag) [.symbol .kwContinue] :=
    readsSimple_keyword .cont (fun _ => rfl) fun _ _ _ _ => rfl
  exact hreads.rebuilds rfl ⟨_, _, rfl, .inr ⟨.kwContinue, by decide, rfl⟩⟩ rfl

/-- The body of a compound statement. -/
theorem body_run {bound n : Nat} (tag : α) {body : Block α} (hpos : 0 < n)
    (hbody : ∀ s ∈ body, Rebuilds bound (n - 1) s) {ts rest : List Token}
    (hts : ts.map Token.kind = suiteKinds body (blockKinds body)) (hrest : rest ≠ [])
    (hbound : (ts ++ rest).length ≤ bound) :
    ∃ body', Block.shape body' = Block.shape (Block.orPass tag (Block.filled body)) ∧
      (level bound n).suite (ts ++ rest) = .ok (body', rest) := by
  obtain ⟨n, rfl⟩ := Nat.exists_eq_succ_of_ne_zero (Nat.pos_iff_ne_zero.mp hpos)
  cases body with
  | nil =>
    have hpass : ∀ s ∈ [Stmt.pass tag], Rebuilds bound n s :=
      List.forall_mem_singleton.mpr (rebuilds_pass tag)
    exact suite_run hpass hts hrest hbound
  | cons s body => exact suite_run hbody hts hrest hbound

/-- The expression and the body of a compound statement. -/
theorem branch_run {bound n : Nat} (tag : α) {test : Expr α} {body : Block α}
    (hfits : test.FitsStmt n) (hbody : ∀ s ∈ body, Rebuilds bound (n - 1) s)
    {ts : List Token} (rest : List Token)
    (hts : ts.map Token.kind = expressionKinds test ++ suiteKinds body (blockKinds body))
    (hrest : rest ≠ []) (hbound : (ts ++ rest).length ≤ bound) :
    ∃ test' body', shapeOf test' = shapeOf test ∧
      Block.shape body' = Block.shape (Block.orPass tag (Block.filled body)) ∧
        ∀ {γ : Type} (f : Expr Line → Block Line → Parser γ), (do
          let test ← (level bound n).expression
          let body ← (level bound n).suite
          f test body) (ts ++ rest) = f test' body' rest := by
  obtain ⟨tsTest, tsBody, rfl, htestKinds, hbodyKinds⟩ := List.map_eq_append_iff.mp hts
  obtain ⟨tColon, tsMore, htsBody, hcolon, -⟩ := List.map_eq_cons_iff.mp hbodyKinds
  rw [List.append_assoc] at hbound ⊢
  obtain ⟨test', htestShape, htestRun⟩ := expression_run hfits tsTest (tsBody ++ rest) htestKinds
    (by simp [hrest]) hbound (by rw [htsBody, List.cons_append, List.map_cons, hcolon]; rfl)
  obtain ⟨body', hbodyShape, hbodyRun⟩ := body_run tag hfits.1 hbody hbodyKinds hrest
    (by simp only [List.length_append] at hbound ⊢; omega)
  exact ⟨test', body', htestShape, hbodyShape, fun f => (bind_run htestRun).trans (bind_run hbodyRun)⟩

/-! ### Compound statements -/

/-- The parameters of a function are read one after the other. -/
theorem paramsAfter_run : ∀ (params found : List String) (count : Nat) (ts rest : List Token),
    ts.map Token.kind = paramKinds params ++ [.symbol .rightParen] → (found.reverse ++ params).Nodup →
      ts.length ≤ count → rest ≠ [] →
        paramsAfter count found (ts ++ rest) = .ok (found.reverse ++ params, rest)
  | _, _, 0, ts, _, hts, _, hcount, _ => by
    have hlength := congrArg List.length hts
    simp only [List.length_map, List.length_append, List.length_singleton] at hlength
    omega
  | [], found, count + 1, ts, rest, hts, _, _, hrest => by
    obtain ⟨close, tail, rfl, hclose, htail⟩ := List.map_eq_cons_iff.mp hts
    cases List.map_eq_nil_iff.mp htail
    rw [List.append_nil]
    exact bind_run (eat?_hit hclose hrest)
  | param :: params, found, count + 1, ts, rest, hts, hnodup, hcount, hrest => by
    have hlead : paramKinds (param :: params) = .name param ::
        (if params = [] then [] else .symbol .comma :: paramKinds params) := by
      cases params <;> rfl
    rw [hlead] at hts
    obtain ⟨tName, ts, rfl, hname, hts⟩ := List.map_eq_cons_iff.mp hts
    have hnoClose : tName.kind.isSymbol .rightParen = false := by rw [hname]; rfl
    have hfresh : found.contains param = false := by
      have hdisjoint := (List.nodup_append.mp hnodup).2.2
      rw [List.contains_eq_mem, decide_eq_false_iff_not]
      exact fun hmem => hdisjoint param (List.mem_reverse.mpr hmem) param List.mem_cons_self rfl
    obtain ⟨t, ts, rfl, ht⟩ : ∃ t tail, ts = t :: tail ∧
        t.kind = .symbol (if params = [] then .rightParen else .comma) := by
      by_cases hlast : params = []
      · rw [if_pos hlast] at hts ⊢
        obtain ⟨t, tail, rfl, ht, -⟩ := List.map_eq_cons_iff.mp hts
        exact ⟨t, tail, rfl, ht⟩
      · rw [if_neg hlast] at hts ⊢
        obtain ⟨t, tail, rfl, ht, -⟩ := List.map_eq_cons_iff.mp hts
        exact ⟨t, tail, rfl, ht⟩
    have hplain : t.kind.isSymbol .eq = false ∧ t.kind.isSymbol .colon = false := by
      rw [ht]
      split <;> exact ⟨rfl, rfl⟩
    refine (bind_run (eat?_miss _ hnoClose)).trans ((bind_run (name_hit hname (by simp))).trans ?_)
    rw [hfresh]
    refine (bind_run (at?_cons t _ .eq)).trans ((bind_run (at?_cons t _ .colon)).trans ?_)
    rw [hplain.1, hplain.2]
    by_cases hlast : params = []
    · subst hlast
      cases List.map_eq_nil_iff.mp (List.cons.inj hts).2
      have hclose : t.kind = .symbol .rightParen := ht
      refine (bind_run (eat?_miss rest (by rw [hclose]; rfl))).trans ?_
      refine (bind_run (expect_hit hclose hrest)).trans ?_
      rw [List.reverse_cons]
      rfl
    · rw [if_neg hlast] at hts ht
      have hnodup' : ((param :: found).reverse ++ params).Nodup := by
        rwa [List.reverse_cons, List.append_assoc]
      refine (bind_run (eat?_hit ht (by simp [hrest]))).trans ?_
      refine (paramsAfter_run params (param :: found) count ts rest (List.cons.inj hts).2 hnodup'
        (by simp only [List.length_cons] at hcount; omega) hrest).trans ?_
      rw [List.reverse_cons, List.append_assoc]
      rfl

/-- The alternative of a conditional is read back from its tokens. -/
def RebuildsOrelse (bound n : Nat) (orelse : Block α) : Prop :=
  ∀ (ts rest : List Token) (count : Nat),
    ts.map Token.kind = orelseKinds orelse (blockKinds orelse) → Follows rest →
      (ts ++ rest).length ≤ bound → ts.length ≤ count →
        ∃ orelse', Block.shape orelse' = Block.shape (Block.filled orelse) ∧
          alternatives (level bound n) count (ts ++ rest) = .ok (orelse', rest)

theorem rebuildsOrelse_nil {bound n : Nat} : RebuildsOrelse bound n ([] : Block α) := by
  intro ts rest count hts hfollows _ _
  cases List.map_eq_nil_iff.mp hts
  obtain ⟨t, rest, rfl, hnoElif, hnoElse⟩ := hfollows
  refine ⟨[], rfl, ?_⟩
  cases count with
  | zero => rfl
  | succ count =>
    refine (bind_run (current_cons t rest)).trans (congrFun (?_ : _ = (pure [] : Parser _)) _)
    split
    · rename_i hkind
      rw [hkind] at hnoElif
      cases hnoElif
    · rename_i hkind
      rw [hkind] at hnoElse
      cases hnoElse
    · rfl

theorem rebuildsOrelse_elif {bound n : Nat} (tag : α) {test : Expr α} {body orelse : Block α}
    (hfits : test.FitsStmt n) (hbody : ∀ s ∈ body, Rebuilds bound (n - 1) s)
    (horelse : RebuildsOrelse bound n orelse) :
    RebuildsOrelse bound n [.ifElse tag test body orelse] := by
  intro ts rest count hts hfollows hbound hcount
  have hkinds : orelseKinds [.ifElse tag test body orelse] (blockKinds [.ifElse tag test body orelse]) =
      .symbol .kwElif :: (expressionKinds test ++ suiteKinds body (blockKinds body) ++
        orelseKinds orelse (blockKinds orelse)) := by
    simp [orelseKinds, isChained, blockKinds, stmtKinds]
  obtain ⟨t, ts, rfl, ht, hts⟩ := List.map_eq_cons_iff.mp (hts.trans hkinds)
  obtain ⟨tsBranch, tsOrelse, rfl, hbranchKinds, horelseKinds⟩ := List.map_eq_append_iff.mp hts
  obtain ⟨count, rfl⟩ : ∃ k, count = k + 1 := Nat.exists_eq_succ_of_ne_zero fun hzero => by
    simp [hzero] at hcount
  simp only [List.cons_append, List.append_assoc, List.length_append, List.length_cons] at hbound hcount ⊢
  obtain ⟨test', body', htestShape, hbodyShape, hbranch⟩ := branch_run tag hfits hbody
    (tsOrelse ++ rest) hbranchKinds (by simp [hfollows.ne_nil])
    (by simp only [List.length_append]; omega)
  obtain ⟨orelse', horelseShape, horelseRun⟩ := horelse tsOrelse rest count horelseKinds hfollows
    (by rw [List.length_append]; omega) (by omega)
  refine ⟨[.ifElse t.line test' body' orelse'], ?_, (bind_run (current_cons t _)).trans ?_⟩
  · show [Stmt.ifElse () (shapeOf test') (Block.shape body') (Block.shape orelse')] = _
    rw [htestShape, hbodyShape, horelseShape]
    rfl
  · rw [ht]
    refine (bind_run (advance_cons t (by simp [hfollows.ne_nil]))).trans ((hbranch _).trans ?_)
    exact bind_run horelseRun

theorem rebuildsOrelse_else {bound n : Nat} {s : Stmt α} {orelse : Block α} (hpos : 0 < n)
    (hchained : isChained (s :: orelse) = false)
    (horelse : ∀ other ∈ s :: orelse, Rebuilds bound (n - 1) other) :
    RebuildsOrelse bound n (s :: orelse) := by
  intro ts rest count hts hfollows hbound hcount
  obtain ⟨n, rfl⟩ := Nat.exists_eq_succ_of_ne_zero (Nat.pos_iff_ne_zero.mp hpos)
  have hkinds : orelseKinds (s :: orelse) (blockKinds (s :: orelse)) = .symbol .kwElse ::
      .symbol .colon :: .newline :: .indent :: (blockKinds (s :: orelse) ++ [.dedent]) := by
    rw [orelseKinds, hchained]
    rfl
  obtain ⟨t, ts, rfl, ht, hts⟩ := List.map_eq_cons_iff.mp (hts.trans hkinds)
  obtain ⟨count, rfl⟩ : ∃ k, count = k + 1 := Nat.exists_eq_succ_of_ne_zero fun hzero => by
    simp [hzero] at hcount
  obtain ⟨orelse', hshape, hrun⟩ := suite_run horelse hts hfollows.ne_nil
    (Nat.le_trans (Nat.le_succ _) hbound)
  refine ⟨orelse', hshape, (bind_run (current_cons t _)).trans ?_⟩
  rw [ht]
  exact (bind_run (advance_cons t (by simp [hfollows.ne_nil]))).trans hrun

/-- The rule of a compound statement is chosen by its keyword. -/
theorem statement_keyword {bound : Nat} {inner : Level} {t : Token} {ts rest : List Token}
    {symbol : Symbol} {p : Line → Parser (Stmt Line)} {s' : Stmt Line} (ht : t.kind = .symbol symbol)
    (hts : ts ≠ [])
    (hrule : ∀ line column, statement bound inner (⟨.symbol symbol, line, column⟩ :: ts) = (do
      advance
      return [← p line] : Parser (List (Stmt Line))) (⟨.symbol symbol, line, column⟩ :: ts))
    (hrun : p t.line ts = .ok (s', rest)) :
    statement bound inner (t :: ts) = .ok ([s'], rest) := by
  obtain ⟨kind, line, column⟩ := t
  cases ht
  exact (hrule line column).trans ((bind_run (advance_cons _ hts)).trans (bind_run hrun))

theorem rebuilds_ifElse {bound n : Nat} (tag : α) {test : Expr α} {body orelse : Block α}
    (hfits : test.FitsStmt n) (hbody : ∀ s ∈ body, Rebuilds bound (n - 1) s)
    (horelse : RebuildsOrelse bound n orelse) : Rebuilds bound n (.ifElse tag test body orelse) := by
  intro ts rest hts hfollows hbound
  have hkinds : stmtKinds (.ifElse tag test body orelse) =
      .symbol .kwIf :: (expressionKinds test ++ suiteKinds body (blockKinds body) ++
        orelseKinds orelse (blockKinds orelse)) := by
    simp [stmtKinds]
  obtain ⟨t, ts, rfl, ht, hts⟩ := List.map_eq_cons_iff.mp (hts.trans hkinds)
  obtain ⟨tsBranch, tsOrelse, rfl, hbranchKinds, horelseKinds⟩ := List.map_eq_append_iff.mp hts
  simp only [List.cons_append, List.append_assoc, List.length_append, List.length_cons] at hbound ⊢
  obtain ⟨test', body', htestShape, hbodyShape, hbranch⟩ := branch_run tag hfits hbody
    (tsOrelse ++ rest) hbranchKinds (by simp [hfollows.ne_nil])
    (by simp only [List.length_append]; omega)
  obtain ⟨orelse', horelseShape, horelseRun⟩ := horelse tsOrelse rest bound horelseKinds hfollows
    (by rw [List.length_append]; omega) (by omega)
  refine ⟨.ifElse t.line test' body' orelse', ?_, ?_⟩
  · show Stmt.ifElse () (shapeOf test') (Block.shape body') (Block.shape orelse') = _
    rw [htestShape, hbodyShape, horelseShape]
    rfl
  · refine statement_keyword ht (by simp [hfollows.ne_nil]) (fun _ _ => rfl) ?_
    exact (hbranch _).trans (bind_run horelseRun)

theorem refuse_loopElse {rest : List Token} (h : Follows rest) :
    refuse .kwElse .loopElse rest = .ok ((), rest) := by
  obtain ⟨t, rest, rfl, -, hnoElse⟩ := h
  exact refuse_miss rest _ hnoElse

theorem rebuilds_whileLoop {bound n : Nat} (tag : α) {test : Expr α} {body : Block α}
    (hfits : test.FitsStmt n) (hbody : ∀ s ∈ body, Rebuilds bound (n - 1) s) :
    Rebuilds bound n (.whileLoop tag test body) := by
  intro ts rest hts hfollows hbound
  obtain ⟨t, ts, rfl, ht, hts⟩ := List.map_eq_cons_iff.mp hts
  obtain ⟨test', body', htestShape, hbodyShape, hbranch⟩ := branch_run tag hfits hbody rest hts
    hfollows.ne_nil (Nat.le_trans (Nat.le_succ _) hbound)
  refine ⟨.whileLoop t.line test' body', ?_, ?_⟩
  · show Stmt.whileLoop () (shapeOf test') (Block.shape body') = _
    rw [htestShape, hbodyShape]
    rfl
  · refine statement_keyword ht (by simp [hfollows.ne_nil]) (fun _ _ => rfl) ?_
    exact (hbranch _).trans (bind_run (refuse_loopElse hfollows))

theorem rebuilds_forLoop {bound n : Nat} (tag : α) (var : String) {source : Expr α} {body : Block α}
    (hfits : source.FitsStmt n) (hbody : ∀ s ∈ body, Rebuilds bound (n - 1) s) :
    Rebuilds bound n (.forLoop tag var source body) := by
  intro ts rest hts hfollows hbound
  obtain ⟨t, ts, rfl, ht, hts⟩ := List.map_eq_cons_iff.mp hts
  obtain ⟨tVar, ts, rfl, hvar, hts⟩ := List.map_eq_cons_iff.mp hts
  obtain ⟨tIn, ts, rfl, hin, hts⟩ := List.map_eq_cons_iff.mp hts
  obtain ⟨source', body', hsourceShape, hbodyShape, hbranch⟩ := branch_run tag hfits hbody rest hts
    hfollows.ne_nil (by simp only [List.length_append, List.length_cons] at hbound ⊢; omega)
  refine ⟨.forLoop t.line var source' body', ?_, ?_⟩
  · show Stmt.forLoop () var (shapeOf source') (Block.shape body') = _
    rw [hsourceShape, hbodyShape]
    rfl
  · refine statement_keyword ht (List.cons_ne_nil _ _) (fun _ _ => rfl) ?_
    refine (bind_run (name_hit hvar (List.cons_ne_nil _ _))).trans ?_
    refine (bind_run (refuse_miss _ _ (by rw [hin]; rfl))).trans ?_
    refine (bind_run (expect_hit hin (by simp [hfollows.ne_nil]))).trans ((hbranch _).trans ?_)
    exact bind_run (refuse_loopElse hfollows)

theorem rebuilds_functionDef {bound n : Nat} (tag : α) (name : String) {params : List String}
    {body : Block α} (hparams : params.Nodup) (hpos : 0 < n)
    (hbody : ∀ s ∈ body, Rebuilds bound (n - 1) s) :
    Rebuilds bound n (.functionDef tag name params body) := by
  intro ts rest hts hfollows hbound
  have hkinds : stmtKinds (.functionDef tag name params body) = .symbol .kwDef :: .name name ::
      .symbol .leftParen :: (paramKinds params ++ [.symbol .rightParen] ++
        suiteKinds body (blockKinds body)) := by
    simp [stmtKinds]
  obtain ⟨t, ts, rfl, ht, hts⟩ := List.map_eq_cons_iff.mp (hts.trans hkinds)
  obtain ⟨tName, ts, rfl, hname, hts⟩ := List.map_eq_cons_iff.mp hts
  obtain ⟨tParen, ts, rfl, hparen, hts⟩ := List.map_eq_cons_iff.mp hts
  obtain ⟨tsParams, tsBody, rfl, hparamKinds, hbodyKinds⟩ := List.map_eq_append_iff.mp hts
  simp only [List.cons_append, List.append_assoc, List.length_append, List.length_cons] at hbound ⊢
  obtain ⟨body', hshape, hrun⟩ := body_run tag hpos hbody hbodyKinds hfollows.ne_nil
    (by rw [List.length_append]; omega)
  have hparamsRun := paramsAfter_run params [] bound tsParams (tsBody ++ rest) hparamKinds hparams
    (by omega) (by simp [hfollows.ne_nil])
  refine ⟨.functionDef t.line name params body', congrArg (Stmt.functionDef () name params) hshape, ?_⟩
  refine statement_keyword ht (List.cons_ne_nil _ _) (fun _ _ => rfl) ?_
  refine (bind_run (name_hit hname (List.cons_ne_nil _ _))).trans ?_
  refine (bind_run (expect_hit hparen (by simp [hfollows.ne_nil]))).trans ?_
  exact (bind_run hparamsRun).trans (bind_run hrun)

/-! ### Every statement -/

mutual

/-- Every statement that can be written down is read back from its tokens. -/
theorem rebuilds {bound : Nat} : ∀ {s : Stmt α} {n : Nat}, s.Fits n → Rebuilds bound n s
  | .functionDef tag name _ _, _, h =>
    rebuilds_functionDef tag name h.2.2.1 h.2.2.2.1 (rebuilds_all h.2.2.2.2)
  | .ret tag none, _, h =>
    (readsSimple_ret tag h).rebuilds rfl ⟨_, _, rfl, .inr ⟨.kwReturn, by decide, rfl⟩⟩ rfl
  | .ret tag (some _), _, h =>
    (readsSimple_ret tag h).rebuilds rfl ⟨_, _, rfl, .inr ⟨.kwReturn, by decide, rfl⟩⟩ rfl
  | .assign tag target value, _, h => by
    obtain ⟨kind, more, hkinds, hopen⟩ := starts_expression target
    exact (readsSimple_assign tag h.1 h.2.1 h.2.2).rebuilds (by simp [stmtKinds])
      ⟨kind, _, by rw [hkinds]; rfl, .inl hopen⟩ rfl
  | .augAssign tag target op value, _, h => by
    obtain ⟨kind, more, hkinds, hopen⟩ := starts_expression target
    exact (readsSimple_augAssign tag h.1 h.2.1 h.2.2.1 h.2.2.2).rebuilds (by simp [stmtKinds])
      ⟨kind, _, by rw [hkinds]; rfl, .inl hopen⟩ rfl
  | .forLoop tag var _ _, _, h => rebuilds_forLoop tag var h.2.1 (rebuilds_all h.2.2)
  | .whileLoop tag _ _, _, h => rebuilds_whileLoop tag h.1 (rebuilds_all h.2)
  | .ifElse tag _ _ _, _, h =>
    rebuilds_ifElse tag h.1 (rebuilds_all h.2.1) (rebuildsOrelse h.1.1 h.2.2)
  | .expr tag value, _, h => by
    obtain ⟨kind, more, hkinds, hopen⟩ := starts_expression value
    exact (readsSimple_expr tag h).rebuilds rfl ⟨kind, more, hkinds, .inl hopen⟩ rfl
  | .pass tag, _, _ => rebuilds_pass tag
  | .brk tag, _, _ => rebuilds_brk tag
  | .cont tag, _, _ => rebuilds_cont tag

theorem rebuilds_all {bound : Nat} : ∀ {body : Block α} {n : Nat}, Block.Fits n body →
    ∀ s ∈ body, Rebuilds bound n s
  | s :: rest, _, h, s', hs => by
    cases hs with
    | head => exact rebuilds h.1
    | tail _ hs => exact rebuilds_all h.2 s' hs

theorem rebuildsOrelse {bound : Nat} : ∀ {orelse : Block α} {n : Nat}, 0 < n →
    Block.Fits (if isChained orelse then n else n - 1) orelse → RebuildsOrelse bound n orelse
  | [], _, _, _ => rebuildsOrelse_nil
  | [.ifElse tag _ _ _], _, hpos, h =>
    rebuildsOrelse_elif tag h.1.1 (rebuilds_all h.1.2.1) (rebuildsOrelse hpos h.1.2.2)
  | .ifElse .. :: _ :: _, _, hpos, h | .functionDef .. :: _, _, hpos, h | .ret .. :: _, _, hpos, h
  | .assign .. :: _, _, hpos, h | .augAssign .. :: _, _, hpos, h | .forLoop .. :: _, _, hpos, h
  | .whileLoop .. :: _, _, hpos, h | .expr .. :: _, _, hpos, h | .pass _ :: _, _, hpos, h
  | .brk _ :: _, _, hpos, h | .cont _ :: _, _, hpos, h =>
    rebuildsOrelse_else hpos rfl (rebuilds_all h)

end

end ProgramBreeding.Source

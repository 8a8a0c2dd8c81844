import ProgramBreeding.Source.Printer
import ProgramBreeding.Source.Parser

/-!
# The tokens of printed programs

What the printer writes, as tokens instead of text, and which programs it can write
down so that they can be read again.

## Main definitions

* `bareKinds`, `encloseKinds` — the tokens of an expression, and of an expression in a
  place that asks for a strength.
* `stmtKinds`, `blockKinds` — the tokens of statements.
* `Expr.Fits`, `Stmt.Fits`, `Block.Fits` — the trees that a number of nesting levels is
  enough for and whose names and constants can be written down.

## Design notes

`Fits` counts levels as the grammar does: one for every bracket, every operand of a
sign or `not`, every exponent, and every block.  An alternative that is a conditional
of its own is written `elif` and needs no level.
-/

namespace ProgramBreeding.Source

variable {α : Type}

/-! ### Tokens -/

/-- The token of a constant that is not negative. -/
def literalKind : Literal → TokenKind
  | .none => .symbol .kwNone
  | .bool true => .symbol .kwTrue
  | .bool false => .symbol .kwFalse
  | .int value => .int value
  | .float value => .float value
  | .str value => .str value

/-- The symbol of an arithmetic operator. -/
def binarySymbol : BinaryOp → Symbol
  | .add => .plus
  | .sub => .minus
  | .mul => .star
  | .div => .slash
  | .floorDiv => .slashSlash
  | .mod => .percent
  | .pow => .starStar

/-- The symbol of an arithmetic operator in an augmented assignment; powers have none
and are given the one of sums. -/
def augmentedSymbol : BinaryOp → Symbol
  | .add | .pow => .plusEq
  | .sub => .minusEq
  | .mul => .starEq
  | .div => .slashEq
  | .floorDiv => .slashSlashEq
  | .mod => .percentEq

/-- The symbol of a unary operator. -/
def unarySymbol : UnaryOp → Symbol
  | .neg => .minus
  | .pos => .plus
  | .not => .kwNot

/-- The symbol of a short-circuit operator. -/
def logicSymbol : LogicOp → Symbol
  | .and => .kwAnd
  | .or => .kwOr

/-- The symbols of a comparison operator. -/
def compareSymbols : CompareOp → List Symbol
  | .lt => [.lt]
  | .gt => [.gt]
  | .le => [.ltEq]
  | .ge => [.gtEq]
  | .eq => [.eqEq]
  | .ne => [.bangEq]
  | .mem => [.kwIn]
  | .notMem => [.kwNot, .kwIn]

/-- Tokens put in parentheses, if the place asks for more strength than the expression
has. -/
def encloseKinds (least : Strength) (e : Expr α) (kinds : List TokenKind) : List TokenKind :=
  if strength e < least then .symbol .leftParen :: kinds ++ [.symbol .rightParen] else kinds

mutual

/-- The tokens of an expression without parentheses around it. -/
def bareKinds : Expr α → List TokenKind
  | .name _ id => [.name id]
  | .constant _ value => [literalKind value]
  | .list _ items =>
    .symbol .leftBracket :: itemKinds Strength.or items ++ [.symbol .rightBracket]
  | .comprehension _ kind element var source cond =>
    let clauses :=
      encloseKinds Strength.or element (bareKinds element) ++
        .symbol .kwFor :: .name var :: .symbol .kwIn ::
          (encloseKinds Strength.or source (bareKinds source) ++ condKinds cond)
    match kind with
    | .list => .symbol .leftBracket :: clauses ++ [.symbol .rightBracket]
    | .generator => clauses
  | .binary _ op left right =>
    encloseKinds (Strength.leftOf op) left (bareKinds left) ++
      .symbol (binarySymbol op) :: encloseKinds (Strength.rightOf op) right (bareKinds right)
  | .unary _ op operand =>
    .symbol (unarySymbol op) :: encloseKinds (Strength.ofUnary op) operand (bareKinds operand)
  | .logic _ op left right =>
    encloseKinds (Strength.ofLogic op) left (bareKinds left) ++
      .symbol (logicSymbol op) :: encloseKinds (Strength.ofLogic op + 1) right (bareKinds right)
  | .compare _ op left right =>
    encloseKinds (Strength.compare + 1) left (bareKinds left) ++
      ((compareSymbols op).map .symbol ++
        encloseKinds (Strength.compare + 1) right (bareKinds right))
  | .call _ callee args =>
    encloseKinds Strength.atom callee (bareKinds callee) ++
      .symbol .leftParen ::
        (itemKinds (if isSoleGenerator args then Strength.generator else Strength.or) args ++
          [.symbol .rightParen])
  | .attribute _ value attr =>
    encloseKinds Strength.atom value (bareKinds value) ++ [.symbol .dot, .name attr]
  | .subscript _ value index =>
    encloseKinds Strength.atom value (bareKinds value) ++
      .symbol .leftBracket ::
        (encloseKinds Strength.or index (bareKinds index) ++ [.symbol .rightBracket])

/-- The tokens of expressions, separated by commas. -/
def itemKinds (least : Strength) : List (Expr α) → List TokenKind
  | [] => []
  | e :: rest => encloseKinds least e (bareKinds e) ++ furtherKinds least rest

/-- The tokens of expressions, each after a comma. -/
def furtherKinds (least : Strength) : List (Expr α) → List TokenKind
  | [] => []
  | e :: rest =>
    .symbol .comma :: (encloseKinds least e (bareKinds e) ++ furtherKinds least rest)

/-- The tokens of the condition of a comprehension. -/
def condKinds : Option (Expr α) → List TokenKind
  | none => []
  | some e => .symbol .kwIf :: encloseKinds Strength.or e (bareKinds e)

end

/-- The tokens of an expression in a statement. -/
def expressionKinds (e : Expr α) : List TokenKind := encloseKinds Strength.or e (bareKinds e)

/-- The tokens of a parameter list up to its closing bracket. -/
def paramKinds : List String → List TokenKind
  | [] => []
  | [param] => [.name param]
  | param :: rest => .name param :: .symbol .comma :: paramKinds rest

/-- The tokens of a block after its colon, given those of its statements. -/
def suiteKinds (body : Block α) (kinds : List TokenKind) : List TokenKind :=
  .symbol .colon :: .newline :: .indent ::
    ((if body.isEmpty then [.symbol .kwPass, .newline] else kinds) ++ [.dedent])

/-- Whether the alternative of a conditional is a conditional alone. -/
def isChained : Block α → Bool
  | [.ifElse ..] => true
  | _ => false

/-- The tokens of the alternative of a conditional, given those of its statements.  A
conditional alone starts with another keyword than on its own. -/
def orelseKinds (orelse : Block α) (kinds : List TokenKind) : List TokenKind :=
  if orelse.isEmpty then []
  else if isChained orelse then .symbol .kwElif :: kinds.tail
  else .symbol .kwElse :: .symbol .colon :: .newline :: .indent :: (kinds ++ [.dedent])

mutual

/-- The tokens of a statement. -/
def stmtKinds : Stmt α → List TokenKind
  | .functionDef _ name params body =>
    .symbol .kwDef :: .name name :: .symbol .leftParen ::
      (paramKinds params ++ .symbol .rightParen :: suiteKinds body (blockKinds body))
  | .ret _ none => [.symbol .kwReturn, .newline]
  | .ret _ (some value) => .symbol .kwReturn :: (expressionKinds value ++ [.newline])
  | .assign _ target value =>
    expressionKinds target ++ .symbol .eq :: (expressionKinds value ++ [.newline])
  | .augAssign _ target op value =>
    expressionKinds target ++ .symbol (augmentedSymbol op) :: (expressionKinds value ++ [.newline])
  | .forLoop _ var source body =>
    .symbol .kwFor :: .name var :: .symbol .kwIn ::
      (expressionKinds source ++ suiteKinds body (blockKinds body))
  | .whileLoop _ test body =>
    .symbol .kwWhile :: (expressionKinds test ++ suiteKinds body (blockKinds body))
  | .ifElse _ test body orelse =>
    .symbol .kwIf ::
      (expressionKinds test ++
        (suiteKinds body (blockKinds body) ++ orelseKinds orelse (blockKinds orelse)))
  | .expr _ value => expressionKinds value ++ [.newline]
  | .pass _ => [.symbol .kwPass, .newline]
  | .brk _ => [.symbol .kwBreak, .newline]
  | .cont _ => [.symbol .kwContinue, .newline]

/-- The tokens of the statements of a block. -/
def blockKinds : List (Stmt α) → List TokenKind
  | [] => []
  | s :: rest => stmtKinds s ++ blockKinds rest

end

/-! ### Programs that can be written down -/

/-- Words that name something: they start like a word, go on like one and are no
keyword. -/
def IsIdentifier (id : String) : Prop :=
  (∃ c cs, id.toList = c :: cs ∧ Text.isWordStart c = true ∧ ∀ d ∈ cs, Text.isWordPart d = true) ∧
    Symbol.keyword? id = none

/-- Constants that can be written down as one token. -/
def IsPlainLiteral : Literal → Prop
  | .int value => 0 ≤ value.toInt
  | .float value => value.isFinite = true ∧ value.isNegative = false
  | _ => True

instance (id : String) : Decidable (IsIdentifier id) :=
  match h : id.toList with
  | [] => .isFalse fun ⟨⟨_, _, hword, _⟩, _⟩ => nomatch h.symm.trans hword
  | c :: cs => decidable_of_iff
      ((Text.isWordStart c = true ∧ cs.all Text.isWordPart = true) ∧ Symbol.keyword? id = none) <| by
    simp only [IsIdentifier, h, List.cons.injEq, List.all_eq_true, and_assoc, exists_and_left, exists_eq_left']

instance : DecidablePred IsPlainLiteral
  | .int value => inferInstanceAs (Decidable (0 ≤ value.toInt))
  | .float value => inferInstanceAs (Decidable (value.isFinite = true ∧ value.isNegative = false))
  | .none | .bool _ | .str _ => .isTrue trivial

end ProgramBreeding.Source

namespace ProgramBreeding

open Source

variable {α : Type}

/-- Something that holds one level further in, where parentheses are needed, and else at
the same level. -/
def EnclosedFits (least : Strength) (e : Expr α) (fits : Nat → Prop) (levels : Nat) : Prop :=
  if strength e < least then 0 < levels ∧ fits (levels - 1) else fits levels

mutual

/-- The expressions that can be written down with a number of levels. -/
def Expr.Fits : Nat → Expr α → Prop
  | _, .name _ id => IsIdentifier id
  | _, .constant _ value => IsPlainLiteral value
  | levels, .list _ items => items ≠ [] → 0 < levels ∧ Expr.FitAll (levels - 1) Strength.or items
  | levels, .comprehension _ .list element var source cond =>
    0 < levels ∧ IsIdentifier var ∧
      EnclosedFits Strength.or element (fun n => Expr.Fits n element) (levels - 1) ∧
      EnclosedFits Strength.or source (fun n => Expr.Fits n source) (levels - 1) ∧
      Expr.FitCond (levels - 1) cond
  | levels, .comprehension _ .generator element var source cond =>
    IsIdentifier var ∧
      EnclosedFits Strength.or element (fun n => Expr.Fits n element) levels ∧
      EnclosedFits Strength.or source (fun n => Expr.Fits n source) levels ∧
      Expr.FitCond levels cond
  | levels, .binary _ op left right =>
    EnclosedFits (Strength.leftOf op) left (fun n => Expr.Fits n left) levels ∧
      if op = .pow then
        0 < levels ∧ EnclosedFits Strength.sign right (fun n => Expr.Fits n right) (levels - 1)
      else EnclosedFits (Strength.rightOf op) right (fun n => Expr.Fits n right) levels
  | levels, .unary _ op operand =>
    0 < levels ∧
      EnclosedFits (Strength.ofUnary op) operand (fun n => Expr.Fits n operand) (levels - 1)
  | levels, .logic _ op left right =>
    EnclosedFits (Strength.ofLogic op) left (fun n => Expr.Fits n left) levels ∧
      EnclosedFits (Strength.ofLogic op + 1) right (fun n => Expr.Fits n right) levels
  | levels, .compare _ _ left right =>
    EnclosedFits (Strength.compare + 1) left (fun n => Expr.Fits n left) levels ∧
      EnclosedFits (Strength.compare + 1) right (fun n => Expr.Fits n right) levels
  | levels, .call _ callee args =>
    EnclosedFits Strength.atom callee (fun n => Expr.Fits n callee) levels ∧
      (args ≠ [] → 0 < levels ∧ Expr.FitAll (levels - 1)
        (if isSoleGenerator args then Strength.generator else Strength.or) args)
  | levels, .attribute _ value attr =>
    EnclosedFits Strength.atom value (fun n => Expr.Fits n value) levels ∧ IsIdentifier attr
  | levels, .subscript _ value index =>
    EnclosedFits Strength.atom value (fun n => Expr.Fits n value) levels ∧
      0 < levels ∧ EnclosedFits Strength.or index (fun n => Expr.Fits n index) (levels - 1)

/-- The lists of expressions that can be written down with a number of levels. -/
def Expr.FitAll (levels : Nat) (least : Strength) : List (Expr α) → Prop
  | [] => True
  | e :: rest =>
    EnclosedFits least e (fun n => Expr.Fits n e) levels ∧ Expr.FitAll levels least rest

/-- The conditions that can be written down with a number of levels. -/
def Expr.FitCond (levels : Nat) : Option (Expr α) → Prop
  | none => True
  | some e => EnclosedFits Strength.or e (fun n => Expr.Fits n e) levels

end

/-- The expressions that can stand in a place that asks for a strength. -/
def Expr.FitsIn (least : Strength) (levels : Nat) (e : Expr α) : Prop :=
  EnclosedFits least e (fun n => e.Fits n) levels

/-- The expressions that can stand in a statement. -/
def Expr.FitsStmt (levels : Nat) (e : Expr α) : Prop :=
  0 < levels ∧ e.FitsIn Strength.or (levels - 1)

mutual

/-- The statements that can be written down with a number of levels. -/
def Stmt.Fits : Nat → Stmt α → Prop
  | levels, .functionDef _ name params body =>
    IsIdentifier name ∧ (∀ param ∈ params, IsIdentifier param) ∧ params.Nodup ∧
      0 < levels ∧ Block.Fits (levels - 1) body
  | levels, .ret _ value => ∀ e, value = some e → e.FitsStmt levels
  | levels, .assign _ target value =>
    target.isAssignable = true ∧ target.FitsStmt levels ∧ value.FitsStmt levels
  | levels, .augAssign _ target op value =>
    target.isAssignable = true ∧ op ≠ .pow ∧ target.FitsStmt levels ∧ value.FitsStmt levels
  | levels, .forLoop _ var source body =>
    IsIdentifier var ∧ source.FitsStmt levels ∧ Block.Fits (levels - 1) body
  | levels, .whileLoop _ test body => test.FitsStmt levels ∧ Block.Fits (levels - 1) body
  | levels, .ifElse _ test body orelse =>
    test.FitsStmt levels ∧ Block.Fits (levels - 1) body ∧
      Block.Fits (if isChained orelse then levels else levels - 1) orelse
  | levels, .expr _ value => value.FitsStmt levels
  | _, .pass _ | _, .brk _ | _, .cont _ => True

/-- The blocks that can be written down with a number of levels. -/
def Block.Fits : Nat → List (Stmt α) → Prop
  | _, [] => True
  | levels, s :: rest => Stmt.Fits levels s ∧ Block.Fits levels rest

end

/-! ### More levels -/

theorem EnclosedFits.mono {least : Strength} {e : Expr α} {fits : Nat → Prop} {m n : Nat}
    (hfits : ∀ {a b}, a ≤ b → fits a → fits b) (hmn : m ≤ n) (h : EnclosedFits least e fits m) :
    EnclosedFits least e fits n := by
  unfold EnclosedFits at h ⊢
  by_cases hstrength : strength e < least
  · rw [if_pos hstrength] at h ⊢
    exact ⟨by omega, hfits (by omega) h.2⟩
  · rw [if_neg hstrength] at h ⊢
    exact hfits hmn h

mutual

/-- What can be written down with some levels can be written down with more. -/
theorem Expr.Fits.mono : ∀ {e : Expr α} {m n : Nat}, m ≤ n → e.Fits m → e.Fits n
  | .name .., _, _, _, h => h
  | .constant .., _, _, _, h => h
  | .list .., _, _, hmn, h => fun hitems =>
    ⟨by have := (h hitems).1; omega, Expr.FitAll.mono (by omega) (h hitems).2⟩
  | .comprehension _ .list .., _, _, hmn, h =>
    ⟨by have := h.1; omega, h.2.1, h.2.2.1.mono Expr.Fits.mono (by omega),
      h.2.2.2.1.mono Expr.Fits.mono (by omega), Expr.FitCond.mono (by omega) h.2.2.2.2⟩
  | .comprehension _ .generator .., _, _, hmn, h =>
    ⟨h.1, h.2.1.mono Expr.Fits.mono hmn, h.2.2.1.mono Expr.Fits.mono hmn,
      Expr.FitCond.mono hmn h.2.2.2⟩
  | .binary _ op _ _, _, _, hmn, h => by
    refine ⟨h.1.mono Expr.Fits.mono hmn, ?_⟩
    have hright := h.2
    split at hright
    · rename_i hop
      rw [if_pos hop]
      exact ⟨by omega, hright.2.mono Expr.Fits.mono (by omega)⟩
    · rename_i hop
      rw [if_neg hop]
      exact hright.mono Expr.Fits.mono hmn
  | .unary .., _, _, hmn, h =>
    ⟨by have := h.1; omega, h.2.mono Expr.Fits.mono (by omega)⟩
  | .logic .., _, _, hmn, h => ⟨h.1.mono Expr.Fits.mono hmn, h.2.mono Expr.Fits.mono hmn⟩
  | .compare .., _, _, hmn, h => ⟨h.1.mono Expr.Fits.mono hmn, h.2.mono Expr.Fits.mono hmn⟩
  | .call .., _, _, hmn, h =>
    ⟨h.1.mono Expr.Fits.mono hmn, fun hargs =>
      ⟨by have := (h.2 hargs).1; omega, Expr.FitAll.mono (by omega) (h.2 hargs).2⟩⟩
  | .attribute .., _, _, hmn, h => ⟨h.1.mono Expr.Fits.mono hmn, h.2⟩
  | .subscript .., _, _, hmn, h =>
    ⟨h.1.mono Expr.Fits.mono hmn, by have := h.2.1; omega,
      h.2.2.mono Expr.Fits.mono (by omega)⟩

theorem Expr.FitAll.mono {least : Strength} : ∀ {items : List (Expr α)} {m n : Nat}, m ≤ n →
    Expr.FitAll m least items → Expr.FitAll n least items
  | [], _, _, _, _ => trivial
  | _ :: _, _, _, hmn, h => ⟨h.1.mono Expr.Fits.mono hmn, Expr.FitAll.mono hmn h.2⟩

theorem Expr.FitCond.mono : ∀ {cond : Option (Expr α)} {m n : Nat}, m ≤ n →
    Expr.FitCond m cond → Expr.FitCond n cond
  | none, _, _, _, _ => trivial
  | some _, _, _, hmn, h => EnclosedFits.mono Expr.Fits.mono hmn h

end

theorem Expr.FitsIn.mono {least : Strength} {e : Expr α} {m n : Nat} (hmn : m ≤ n)
    (h : e.FitsIn least m) : e.FitsIn least n :=
  EnclosedFits.mono Expr.Fits.mono hmn h

theorem Expr.FitsStmt.mono {e : Expr α} {m n : Nat} (hmn : m ≤ n) (h : e.FitsStmt m) :
    e.FitsStmt n :=
  ⟨by have := h.1; omega, h.2.mono (by omega)⟩

/-- What fits in a place fits without parentheses around it, too. -/
theorem EnclosedFits.fits {least : Strength} {e : Expr α} {n : Nat}
    (h : EnclosedFits least e (fun m => e.Fits m) n) : e.Fits n := by
  unfold EnclosedFits at h
  split at h
  · exact h.2.mono (by omega)
  · exact h

theorem Expr.FitsIn.fits {least : Strength} {e : Expr α} {n : Nat} (h : e.FitsIn least n) :
    e.Fits n :=
  EnclosedFits.fits h

/-- In parentheses an expression can stand anywhere. -/
theorem Expr.Fits.enclosed {least : Strength} {e : Expr α} {n : Nat} (hn : 0 < n)
    (h : e.Fits (n - 1)) : e.FitsIn least n := by
  unfold Expr.FitsIn EnclosedFits
  split
  · exact ⟨hn, h⟩
  · exact h.mono (by omega)

/-- An expression that is strong enough needs no parentheses. -/
theorem Expr.Fits.bare {least : Strength} {e : Expr α} {n : Nat} (hstrength : least ≤ strength e)
    (h : e.Fits n) : e.FitsIn least n := by
  unfold Expr.FitsIn EnclosedFits
  rwa [if_neg (Nat.not_lt.mpr hstrength)]

/-- A place that asks for less strength takes more expressions. -/
theorem Expr.FitsIn.weaken {least greater : Strength} {e : Expr α} {n : Nat}
    (hle : least ≤ greater) (h : e.FitsIn greater n) : e.FitsIn least n := by
  by_cases hstrength : strength e < greater
  · unfold Expr.FitsIn EnclosedFits at h
    rw [if_pos hstrength] at h
    exact h.2.enclosed h.1
  · exact h.fits.bare (Nat.le_trans hle (Nat.not_lt.mp hstrength))

mutual

theorem Stmt.Fits.mono : ∀ {s : Stmt α} {m n : Nat}, m ≤ n → s.Fits m → s.Fits n
  | .functionDef .., _, _, hmn, h =>
    ⟨h.1, h.2.1, h.2.2.1, by have := h.2.2.2.1; omega, Block.Fits.mono (by omega) h.2.2.2.2⟩
  | .ret .., _, _, hmn, h => fun e he => (h e he).mono hmn
  | .assign .., _, _, hmn, h => ⟨h.1, h.2.1.mono hmn, h.2.2.mono hmn⟩
  | .augAssign .., _, _, hmn, h => ⟨h.1, h.2.1, h.2.2.1.mono hmn, h.2.2.2.mono hmn⟩
  | .forLoop .., _, _, hmn, h => ⟨h.1, h.2.1.mono hmn, Block.Fits.mono (by omega) h.2.2⟩
  | .whileLoop .., _, _, hmn, h => ⟨h.1.mono hmn, Block.Fits.mono (by omega) h.2⟩
  | .ifElse .., _, _, hmn, h =>
    ⟨h.1.mono hmn, Block.Fits.mono (by omega) h.2.1, Block.Fits.mono (by split <;> omega) h.2.2⟩
  | .expr .., _, _, hmn, h => Expr.FitsStmt.mono hmn h
  | .pass _, _, _, _, _ => trivial
  | .brk _, _, _, _, _ => trivial
  | .cont _, _, _, _, _ => trivial

theorem Block.Fits.mono : ∀ {body : Block α} {m n : Nat}, m ≤ n → Block.Fits m body →
    Block.Fits n body
  | [], _, _, _, _ => trivial
  | _ :: _, _, _, hmn, h => ⟨h.1.mono hmn, Block.Fits.mono hmn h.2⟩

end

theorem Block.fits_iff {n : Nat} : ∀ {body : Block α},
    Block.Fits n body ↔ ∀ s ∈ body, s.Fits n
  | [] => by simp [Block.Fits]
  | s :: rest => by
    have hrest : Block.Fits n rest ↔ ∀ s ∈ rest, s.Fits n := Block.fits_iff
    simp [Block.Fits, hrest]

theorem Expr.fitAll_iff {n : Nat} {least : Strength} : ∀ {items : List (Expr α)},
    Expr.FitAll n least items ↔ ∀ e ∈ items, e.FitsIn least n
  | [] => by simp [Expr.FitAll]
  | e :: rest => by
    have hrest : Expr.FitAll n least rest ↔ ∀ e ∈ rest, e.FitsIn least n := Expr.fitAll_iff
    simp only [Expr.FitAll, List.forall_mem_cons, hrest]
    exact Iff.rfl

end ProgramBreeding

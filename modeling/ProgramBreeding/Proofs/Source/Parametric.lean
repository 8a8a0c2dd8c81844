import ProgramBreeding.Source.Parser

/-!
# Relations between parsers

The rules of the grammar are put together from a few ways to look at the next tokens, to
consume one and to fail.  A relation that these respect is respected by every rule.

## Main definitions

* `Parser.Congruence` — a relation between parsers that is closed under the ways to put
  them together.
* `Parser.TaggedCongruence` — such a relation with a property of what is returned, where
  expressions are tagged with the lines of tokens.
* `Level.Related` — levels with related parsers.
* `Parser.Yields` — what a parser returns, and leaves, under a condition on the tokens.

## Main results

* `TaggedCongruence.outward`, `Congruence.outward` — the levels around related levels are
  related.
* `TaggedCongruence.programAfter`, `Congruence.programAfter` — so are the programs of
  related levels.
* `yields_congruence` — a condition that holds of later tokens is kept by all rules.

## Design notes

The rules are gone through once, with properties of what they return: an error at the
target of an assignment is thrown at the line that the target is tagged with, so whoever
asks for the positions of errors has to know the tags.  A `Congruence` does not ask for
them.
-/

namespace ProgramBreeding.Source

open ProgramBreeding.Source.Parser

/-- A line, if there is one, has a property. -/
def Allowed (IsTag : Line → Prop) : Option Line → Prop
  | none => True
  | some line => IsTag line

/-- Nothing about a result is a tag. -/
abbrev noTag {β : Type} (_ : β) : Option Line := none

/-- The tag of an expression. -/
abbrev ownTag (e : Expr Line) : Option Line := some e.tag

/-- The tag of what is found in a bracket, if it is one expression. -/
def itemsTag : Expr Line ⊕ List (Expr Line) → Option Line
  | .inl e => some e.tag
  | .inr _ => none

namespace Parser

/-- A relation between parsers that is closed under the ways to put them together.  Tokens
that are alike differ at most in what the grammar does not look at. -/
structure Congruence (Alike : Token → Token → Prop) (R : ∀ {β : Type}, Parser β → Parser β → Prop) :
    Prop where
  kind {t u : Token} : Alike t u → t.kind = u.kind
  line {t u : Token} : Alike t u → t.line = u.line
  pure {β : Type} (b : β) : R (pure b) (pure b)
  bind {β γ : Type} {p q : Parser β} {f g : β → Parser γ} :
    R p q → (∀ b, R (f b) (g b)) → R (p >>= f) (q >>= g)
  current {β : Type} {f g : Token → Parser β} :
    (∀ t u, Alike t u → R (f t) (g u)) → R (current >>= f) (current >>= g)
  tokens {β : Type} {f g : List Token → Parser β} :
    (∀ ts us, compareOp? ts = compareOp? us → R (f ts) (g us)) → R (get >>= f) (get >>= g)
  advance : R advance advance
  failAt {β : Type} {t u : Token} (cause : Cause) :
    Alike t u → R (failAt t cause : Parser β) (failAt u cause)
  throw {β : Type} (e : ParseError) : R (throw e : Parser β) (throw e)

/-- A relation between parsers that is closed under the ways to put them together, where the
lines of tokens and the tags of what is returned have a property.  Only at such lines errors
are thrown. -/
structure TaggedCongruence (Alike : Token → Token → Prop) (IsTag : Line → Prop)
    (R : ∀ {β : Type}, (β → Option Line) → Parser β → Parser β → Prop) : Prop where
  kind {t u : Token} : Alike t u → t.kind = u.kind
  line {t u : Token} : Alike t u → t.line = u.line
  tag {t u : Token} : Alike t u → IsTag u.line
  pure {β : Type} {tag? : β → Option Line} {b : β} : Allowed IsTag (tag? b) → R tag? (pure b) (pure b)
  bind {β γ : Type} {tag? : β → Option Line} {tag?' : γ → Option Line} {p q : Parser β} {f g : β → Parser γ} :
    R tag? p q → (∀ b, Allowed IsTag (tag? b) → R tag?' (f b) (g b)) → R tag?' (p >>= f) (q >>= g)
  current {β : Type} {tag? : β → Option Line} {f g : Token → Parser β} :
    (∀ t u, Alike t u → R tag? (f t) (g u)) → R tag? (current >>= f) (current >>= g)
  tokens {β : Type} {tag? : β → Option Line} {f g : List Token → Parser β} :
    (∀ ts us, compareOp? ts = compareOp? us → R tag? (f ts) (g us)) → R tag? (get >>= f) (get >>= g)
  advance : R noTag advance advance
  failAt {β : Type} {tag? : β → Option Line} {t u : Token} (cause : Cause) :
    Alike t u → R tag? (failAt t cause) (failAt u cause)
  throw {β : Type} {tag? : β → Option Line} {line : Line} :
    IsTag line → R tag? (throw ⟨line, 1, .notAssignable⟩) (throw ⟨line, 1, .notAssignable⟩)

namespace TaggedCongruence

variable {Alike : Token → Token → Prop} {IsTag : Line → Prop}
  {R : ∀ {β : Type}, (β → Option Line) → Parser β → Parser β → Prop} {β γ : Type} {tag? : β → Option Line}

theorem ite (_ : TaggedCongruence Alike IsTag R) {p q p' q' : Parser β} {c : Prop} [Decidable c]
    (hp : R tag? p q) (hp' : R tag? p' q') : R tag? (if c then p else p') (if c then q else q') := by
  split
  · exact hp
  · exact hp'

variable (h : TaggedCongruence Alike IsTag R)
include h

theorem done (b : β) : R noTag (Pure.pure b) (Pure.pure b) := h.pure trivial

/-- A parser that only comes first under a condition. -/
theorem when {p q : Parser Unit} {f g : Unit → Parser β} {c : Prop} [Decidable c]
    (hp : R noTag p q) (hf : ∀ b, R tag? (f b) (g b)) :
    R tag? (if c then p >>= f else f ()) (if c then q >>= g else g ()) :=
  h.ite (h.bind hp fun b _ => hf b) (hf ())

theorem map {p q : Parser β} (f : β → γ) (hp : R tag? p q) : R noTag (f <$> p) (f <$> q) := by
  rw [map_eq_pure_bind, map_eq_pure_bind]
  exact h.bind hp fun b _ => h.done (f b)

theorem fail (cause : Cause) : R tag? (fail cause) (fail cause) :=
  h.current fun _ _ htu => h.failAt cause htu

theorem failExpecting (wanted : Wanted) : R tag? (failExpecting wanted) (failExpecting wanted) :=
  h.current fun _ _ htu => by
    rw [h.kind htu]
    exact h.failAt _ htu

theorem lineTag : R some Parser.line Parser.line :=
  h.current fun _ _ htu => by
    rw [h.line htu]
    exact h.pure (h.tag htu)

theorem at? (wanted : Symbol) : R noTag (Parser.at? wanted) (Parser.at? wanted) :=
  h.current fun _ _ htu => by
    rw [h.kind htu]
    exact h.done _

theorem atNewline : R noTag Parser.atNewline Parser.atNewline :=
  h.current fun _ _ htu => by
    rw [h.kind htu]
    split <;> exact h.done _

theorem atEnd : R noTag Parser.atEnd Parser.atEnd :=
  h.current fun _ _ htu => by
    rw [h.kind htu]
    split <;> exact h.done _

theorem eat? (wanted : Symbol) : R noTag (Parser.eat? wanted) (Parser.eat? wanted) :=
  h.bind (h.at? wanted) fun _ _ => h.ite (h.bind h.advance fun _ _ => h.done true) (h.done false)

theorem eatNewline? : R noTag Parser.eatNewline? Parser.eatNewline? :=
  h.bind h.atNewline fun _ _ => h.ite (h.bind h.advance fun _ _ => h.done true) (h.done false)

theorem expect (wanted : Symbol) : R noTag (Parser.expect wanted) (Parser.expect wanted) :=
  h.bind (h.eat? wanted) fun _ _ => h.ite (h.done ()) (h.failExpecting _)

theorem name : R noTag Parser.name Parser.name :=
  h.current fun _ _ htu => by
    rw [h.kind htu]
    split
    · exact h.bind h.advance fun _ _ => h.done _
    · exact h.failExpecting _

theorem refuse (symbol : Symbol) (feature : Feature) :
    R noTag (Parser.refuse symbol feature) (Parser.refuse symbol feature) :=
  h.bind (h.at? symbol) fun _ _ => h.ite (h.fail _) (h.done ())

section Chains

variable {ω : Type} (op? : TokenKind → Option ω) {p q : Parser (Expr Line)}
  {join : Line → ω → Expr Line → Expr Line → Expr Line}
  (hjoin : ∀ line op left right, (join line op left right).tag = line) (hp : R ownTag p q)
include hjoin hp

/-- The tags of a chain are the lines of its operators. -/
theorem chainAfter : ∀ (count : Nat) {left : Expr Line}, IsTag left.tag →
    R ownTag (Parser.chainAfter op? p join count left) (Parser.chainAfter op? q join count left)
  | 0, _, hleft => h.pure hleft
  | count + 1, left, hleft => h.current fun t u htu => by
    rw [h.kind htu, h.line htu]
    split
    · exact h.pure hleft
    · refine h.bind h.advance fun _ _ => h.bind hp fun right _ => chainAfter count ?_
      rw [hjoin]
      exact h.tag htu

theorem chain (bound : Nat) :
    R ownTag (Parser.chain bound op? p join) (Parser.chain bound op? q join) :=
  h.bind hp fun _ hleft => h.chainAfter op? hjoin hp bound hleft

end Chains

end TaggedCongruence

end Parser

/-- Levels whose parsers are related. -/
structure Level.Related (R : ∀ {β : Type}, Parser β → Parser β → Prop) (inner outer : Level) :
    Prop where
  orExpr : R inner.orExpr outer.orExpr
  notExpr : R inner.notExpr outer.notExpr
  factor : R inner.factor outer.factor
  block : R inner.block outer.block

/-- Levels whose parsers are related, where the tags of expressions have a property. -/
structure Level.TagRelated (IsTag : Line → Prop)
    (R : ∀ {β : Type}, (β → Option Line) → Parser β → Parser β → Prop) (inner outer : Level) : Prop where
  orExpr : R ownTag inner.orExpr outer.orExpr
  notExpr : R ownTag inner.notExpr outer.notExpr
  factor : R ownTag inner.factor outer.factor
  block : R noTag inner.block outer.block

namespace Parser.TaggedCongruence

open Level

variable {Alike : Token → Token → Prop} {IsTag : Line → Prop}
  {R : ∀ {β : Type}, (β → Option Line) → Parser β → Parser β → Prop} (h : TaggedCongruence Alike IsTag R)
  {inner outer : Level} (hl : TagRelated IsTag R inner outer)
include h hl

/-! ### Expressions -/

theorem clauses (kind : ComprehensionKind) (element : Expr Line) :
    R ownTag (inner.clauses kind element) (outer.clauses kind element) := by
  have hend {line : Line} (hline : IsTag line) (var : String) (source : Expr Line)
      (cond : Option (Expr Line)) : R ownTag
      (do
        if (← Parser.at? .kwFor) || (← Parser.at? .kwIf) then Parser.fail .extraClause
        return Expr.comprehension line kind element var source cond)
      (do
        if (← Parser.at? .kwFor) || (← Parser.at? .kwIf) then Parser.fail .extraClause
        return Expr.comprehension line kind element var source cond) :=
    h.bind (h.at? _) fun _ _ => h.bind (h.at? _) fun _ _ => h.when (h.fail _) fun _ => h.pure hline
  exact h.bind h.lineTag fun line hline => h.bind (h.expect _) fun _ _ => h.bind h.name fun var _ =>
    h.bind (h.refuse _ _) fun _ _ => h.bind (h.expect _) fun _ _ => h.bind hl.orExpr fun source _ =>
    h.bind (h.eat? _) fun _ _ => h.ite
      (h.bind (h.map some hl.orExpr) fun cond _ => hend hline var source cond)
      (h.bind (h.done none) fun cond _ => hend hline var source cond)

/-- A comprehension that is found in a bracket is an expression. -/
theorem itemsAfter (kind : ComprehensionKind) (close : Symbol) {check : Parser Unit}
    (hcheck : R noTag check check) : ∀ (count : Nat) (items : List (Expr Line)),
      R itemsTag
        (inner.itemsAfter kind close check count items) (outer.itemsAfter kind close check count items)
  | 0, _ => h.bind (h.expect _) fun _ _ => h.pure trivial
  | count + 1, _ =>
    h.bind (h.eat? _) fun _ _ => h.ite (h.pure trivial) <| h.bind hl.orExpr fun item _ =>
      h.bind (h.at? _) fun _ _ => h.ite
        (h.bind (h.clauses hl kind item) fun _ hfound => h.bind (h.expect _) fun _ _ => h.pure hfound)
        (h.bind hcheck fun _ _ => h.bind (h.eat? _) fun _ _ => h.ite
          (itemsAfter kind close hcheck count _) (h.bind (h.expect _) fun _ _ => h.pure trivial))

theorem callArgs (bound : Nat) : R noTag (inner.callArgs bound) (outer.callArgs bound) :=
  h.bind (h.itemsAfter hl _ _ (h.refuse _ _) bound []) fun found _ => by
    cases found <;> exact h.done _

theorem listDisplay (bound : Nat) {line : Line} (hline : IsTag line) :
    R ownTag (inner.listDisplay bound line) (outer.listDisplay bound line) :=
  h.bind (h.itemsAfter hl _ _ (h.done ()) bound []) fun found hfound => by
    cases found with
    | inl e => exact h.pure hfound
    | inr items => exact h.pure hline

theorem parenthesized : R ownTag inner.parenthesized outer.parenthesized := by
  have hend {found : Expr Line} (hfound : IsTag found.tag) : R ownTag
      (do
        Parser.refuse .comma .tuples
        Parser.expect .rightParen
        return found)
      (do
        Parser.refuse .comma .tuples
        Parser.expect .rightParen
        return found) :=
    h.bind (h.refuse _ _) fun _ _ => h.bind (h.expect _) fun _ _ => h.pure hfound
  exact h.bind (h.refuse _ _) fun _ _ => h.bind hl.orExpr fun first hfirst => h.bind (h.at? _) fun _ _ =>
    h.ite (h.bind (h.clauses hl .generator first) fun _ => hend) (h.bind (h.pure hfirst) fun _ => hend)

omit hl in
theorem stringsAfter : ∀ (count : Nat) (value : String),
    R noTag (Level.stringsAfter count value) (Level.stringsAfter count value)
  | 0, _ => h.done _
  | count + 1, value => h.current fun _ _ htu => by
    rw [h.kind htu]
    split
    · exact h.bind h.advance fun _ _ => stringsAfter count _
    · exact h.done _

theorem atom (bound : Nat) : R ownTag (inner.atom bound) (outer.atom bound) :=
  h.current fun t u htu => h.bind h.advance fun _ _ => by
    rw [h.kind htu, h.line htu]
    split
    case h_4 => exact h.bind (h.stringsAfter bound _) fun _ _ => h.pure (h.tag htu)
    case h_8 => exact h.parenthesized hl
    case h_9 => exact h.listDisplay hl bound (h.tag htu)
    all_goals first
      | exact h.pure (h.tag htu)
      | exact h.failAt _ htu

theorem subscriptIndex : R ownTag inner.subscriptIndex outer.subscriptIndex :=
  h.bind (h.refuse _ _) fun _ _ => h.bind hl.orExpr fun _ hindex => h.bind (h.refuse _ _) fun _ _ =>
    h.bind (h.expect _) fun _ _ => h.pure hindex

theorem postfixAfter (bound : Nat) : ∀ (count : Nat) {value : Expr Line}, IsTag value.tag →
    R ownTag (inner.postfixAfter bound count value) (outer.postfixAfter bound count value)
  | 0, _, hvalue => h.pure hvalue
  | count + 1, value, hvalue => h.current fun t u htu => by
    rw [h.kind htu, h.line htu]
    split
    · exact h.bind h.advance fun _ _ => h.bind (h.callArgs hl bound) fun _ _ =>
        postfixAfter bound count (h.tag htu)
    · exact h.bind h.advance fun _ _ => h.bind (h.subscriptIndex hl) fun _ _ =>
        postfixAfter bound count (h.tag htu)
    · exact h.bind h.advance fun _ _ => h.bind h.name fun _ _ => postfixAfter bound count (h.tag htu)
    · exact h.pure hvalue

theorem postfixed (bound : Nat) : R ownTag (inner.postfixed bound) (outer.postfixed bound) :=
  h.bind (h.atom hl bound) fun _ hvalue => h.postfixAfter hl bound bound hvalue

theorem power (bound : Nat) : R ownTag (inner.power bound) (outer.power bound) :=
  h.bind (h.postfixed hl bound) fun _ hbase => h.current fun t u htu => by
    rw [h.kind htu, h.line htu]
    exact h.ite (h.bind h.advance fun _ _ => h.bind hl.factor fun _ _ => h.pure (h.tag htu)) (h.pure hbase)

theorem factorRule (bound : Nat) : R ownTag (inner.factorRule bound) (outer.factorRule bound) :=
  h.current fun t u htu => by
    rw [h.kind htu, h.line htu]
    split
    · exact h.bind h.advance fun _ _ => h.bind hl.factor fun _ _ => h.pure (h.tag htu)
    · exact h.power hl bound

theorem arith (bound : Nat) : R ownTag (inner.arith bound) (outer.arith bound) :=
  h.chain _ (fun _ _ _ _ => rfl) (h.chain _ (fun _ _ _ _ => rfl) (h.factorRule hl bound) bound) bound

theorem comparison (bound : Nat) : R ownTag (inner.comparison bound) (outer.comparison bound) := by
  have hright {line : Line} (hline : IsTag line) (op : CompareOp) (left : Expr Line) : R ownTag
      (do
        let right ← inner.arith bound
        if (compareOp? (← get)).isSome then Parser.fail (.unsupported .chainedComparisons)
        Parser.refuse .kwIs .identityTest
        return Expr.compare line op left right)
      (do
        let right ← outer.arith bound
        if (compareOp? (← get)).isSome then Parser.fail (.unsupported .chainedComparisons)
        Parser.refuse .kwIs .identityTest
        return Expr.compare line op left right) :=
    h.bind (h.arith hl bound) fun _ _ => h.tokens fun _ _ hop => by
      rw [hop]
      exact h.when (h.fail _) fun _ => h.bind (h.refuse _ _) fun _ _ => h.pure hline
  -- The only rule that looks two tokens ahead, for the operators of two words.
  refine h.bind (h.arith hl bound) fun left hleft => h.tokens fun _ _ hop => ?_
  rw [hop]
  split
  · exact h.pure hleft
  · exact h.bind h.lineTag fun line hline => h.bind h.advance fun _ _ =>
      h.when h.advance fun _ => hright hline _ left

theorem notRule (bound : Nat) : R ownTag (inner.notRule bound) (outer.notRule bound) :=
  h.current fun t u htu => by
    rw [h.kind htu, h.line htu]
    exact h.ite (h.bind h.advance fun _ _ => h.bind hl.notExpr fun _ _ => h.pure (h.tag htu))
      (h.comparison hl bound)

theorem orRule (bound : Nat) : R ownTag (inner.orRule bound) (outer.orRule bound) :=
  h.chain _ (fun _ _ _ _ => rfl) (h.chain _ (fun _ _ _ _ => rfl) (h.notRule hl bound) bound) bound

/-! ### Statements -/

omit hl in
/-- The error at a target is thrown at the line of its tag. -/
theorem checkTarget {target : Expr Line} (htarget : IsTag target.tag) :
    R noTag (Level.checkTarget target) (Level.checkTarget target) :=
  h.ite (h.done ()) (h.throw htarget)

theorem returnValue : R noTag inner.returnValue outer.returnValue :=
  h.bind h.atNewline fun _ _ => h.bind h.atEnd fun _ _ => h.bind (h.at? _) fun _ _ =>
    h.ite (h.done _) (h.bind hl.orExpr fun _ _ => h.done _)

theorem expressionStatement (line : Line) :
    R noTag (inner.expressionStatement line) (outer.expressionStatement line) :=
  h.bind hl.orExpr fun first hfirst => h.bind (h.refuse _ _) fun _ _ => h.current fun t u htu => by
    rw [h.kind htu]
    refine h.ite (h.bind h.advance fun _ _ => h.bind (h.checkTarget hfirst) fun _ _ =>
      h.bind hl.orExpr fun _ _ => h.bind (h.refuse _ _) fun _ _ => h.done _) ?_
    split
    · exact h.bind h.advance fun _ _ => h.bind (h.checkTarget hfirst) fun _ _ =>
        h.bind hl.orExpr fun _ _ => h.done _
    · exact h.done _

theorem simpleStatement : R noTag inner.simpleStatement outer.simpleStatement :=
  h.current fun t u htu => by
    rw [h.kind htu, h.line htu]
    split
    · exact h.bind h.advance fun _ _ => h.done _
    · exact h.bind h.advance fun _ _ => h.done _
    · exact h.bind h.advance fun _ _ => h.done _
    · exact h.bind h.advance fun _ _ => h.bind (h.returnValue hl) fun _ _ => h.done _
    · exact h.expressionStatement hl _

theorem lineAfter : ∀ (count : Nat) (found : List (Stmt Line)),
    R noTag (inner.lineAfter count found) (outer.lineAfter count found)
  | 0, _ => h.done _
  | count + 1, _ =>
    h.bind (h.simpleStatement hl) fun _ _ => h.bind (h.eat? _) fun _ _ => h.bind h.atNewline fun _ _ =>
      h.bind h.atEnd fun _ _ => h.ite (h.done _) (lineAfter count _)

theorem simpleStatements (bound : Nat) :
    R noTag (inner.simpleStatements bound) (outer.simpleStatements bound) :=
  h.bind (h.lineAfter hl bound []) fun _ _ => h.bind h.eatNewline? fun _ _ => h.bind h.atEnd fun _ _ =>
    h.when (h.failExpecting _) fun _ => h.done _

theorem suite : R noTag inner.suite outer.suite := h.bind (h.expect _) fun _ _ => hl.block

omit hl in
theorem paramsAfter : ∀ (count : Nat) (params : List String),
    R noTag (Level.paramsAfter count params) (Level.paramsAfter count params)
  | 0, _ => h.bind (h.expect _) fun _ _ => h.done _
  | count + 1, _ =>
    h.bind (h.eat? _) fun _ _ => h.ite (h.done _) <| h.bind h.name fun _ _ =>
      h.when (h.fail _) fun _ => h.bind (h.at? _) fun _ _ => h.bind (h.at? _) fun _ _ =>
        h.when (h.fail _) fun _ => h.bind (h.eat? _) fun _ _ => h.ite (paramsAfter count _)
          (h.bind (h.expect _) fun _ _ => h.done _)

theorem functionDef (bound : Nat) (line : Line) :
    R noTag (inner.functionDef bound line) (outer.functionDef bound line) :=
  h.bind h.name fun _ _ => h.bind (h.expect _) fun _ _ => h.bind (h.paramsAfter bound []) fun _ _ =>
    h.bind (h.suite hl) fun _ _ => h.done _

theorem alternatives : ∀ count : Nat, R noTag (inner.alternatives count) (outer.alternatives count)
  | 0 => h.done _
  | count + 1 => h.current fun t u htu => by
    rw [h.kind htu, h.line htu]
    split
    · exact h.bind h.advance fun _ _ => h.bind hl.orExpr fun _ _ => h.bind (h.suite hl) fun _ _ =>
        h.bind (alternatives count) fun _ _ => h.done _
    · exact h.bind h.advance fun _ _ => h.suite hl
    · exact h.done _

theorem conditional (bound : Nat) (line : Line) :
    R noTag (inner.conditional bound line) (outer.conditional bound line) :=
  h.bind hl.orExpr fun _ _ => h.bind (h.suite hl) fun _ _ => h.bind (h.alternatives hl bound) fun _ _ =>
    h.done _

theorem whileStatement (line : Line) :
    R noTag (inner.whileStatement line) (outer.whileStatement line) :=
  h.bind hl.orExpr fun _ _ => h.bind (h.suite hl) fun _ _ => h.bind (h.refuse _ _) fun _ _ => h.done _

theorem forStatement (line : Line) :
    R noTag (inner.forStatement line) (outer.forStatement line) :=
  h.bind h.name fun _ _ => h.bind (h.refuse _ _) fun _ _ => h.bind (h.expect _) fun _ _ =>
    h.bind hl.orExpr fun _ _ => h.bind (h.suite hl) fun _ _ => h.bind (h.refuse _ _) fun _ _ => h.done _

theorem statement (bound : Nat) : R noTag (inner.statement bound) (outer.statement bound) := by
  have hone {p q : Parser (Stmt Line)} (hp : R noTag p q) :
      R noTag (do return [← p]) (do return [← q]) :=
    h.bind hp fun _ _ => h.done _
  refine h.current fun t u htu => ?_
  rw [h.kind htu, h.line htu]
  split
  · exact h.bind h.advance fun _ _ => hone (h.functionDef hl bound _)
  · exact h.bind h.advance fun _ _ => hone (h.conditional hl bound _)
  · exact h.bind h.advance fun _ _ => hone (h.whileStatement hl _)
  · exact h.bind h.advance fun _ _ => hone (h.forStatement hl _)
  · exact h.ite (h.fail _) (h.simpleStatements hl bound)
  · exact h.fail _
  · exact h.simpleStatements hl bound

theorem blockAfter (bound : Nat) : ∀ (count : Nat) (found : List (Stmt Line)),
    R noTag (inner.blockAfter bound count found) (outer.blockAfter bound count found)
  | 0, _ => h.done _
  | count + 1, found => h.current fun t u htu => by
    rw [h.kind htu]
    split
    · exact h.bind h.advance fun _ _ => h.done _
    · exact h.done _
    · exact h.bind (h.statement hl bound) fun _ _ => blockAfter bound count _

theorem blockRule (bound : Nat) : R noTag (inner.blockRule bound) (outer.blockRule bound) :=
  h.bind h.eatNewline? fun _ _ => h.ite
    (h.current fun t u htu => by
      rw [h.kind htu]
      split
      · exact h.bind h.advance fun _ _ => h.blockAfter hl bound bound []
      · exact h.failExpecting _)
    (h.simpleStatements hl bound)

/-- The levels around related levels are related. -/
theorem outward (bound : Nat) : TagRelated IsTag R (inner.outward bound) (outer.outward bound) where
  orExpr := h.orRule hl bound
  notExpr := h.notRule hl bound
  factor := h.factorRule hl bound
  block := h.blockRule hl bound

/-- The programs of related levels are related. -/
theorem programAfter (bound : Nat) : ∀ (count : Nat) (found : List (Stmt Line)),
    R noTag (programAfter bound inner count found) (programAfter bound outer count found)
  | 0, _ => h.done _
  | count + 1, found => h.current fun t u htu => by
    rw [h.kind htu]
    split
    · exact h.done _
    · exact h.bind h.advance fun _ _ => programAfter bound count found
    · exact h.bind (h.statement hl bound) fun _ _ => programAfter bound count _

omit hl in
/-- Every level is related to itself. -/
theorem level (bound : Nat) : ∀ depth : Nat, TagRelated IsTag R (level bound depth) (level bound depth)
  | 0 => ⟨h.fail _, h.fail _, h.fail _, h.fail _⟩
  | depth + 1 => h.outward (level bound depth) bound

end Parser.TaggedCongruence

/-! ### Relations that do not look at results -/

theorem allowed : ∀ line? : Option Line, Allowed (fun _ => True) line?
  | none => trivial
  | some _ => trivial

namespace Parser.Congruence

variable {Alike : Token → Token → Prop} {R : ∀ {β : Type}, Parser β → Parser β → Prop}
  (h : Congruence Alike R)
include h

/-- A relation that does not look at results does not look at their tags. -/
theorem tagged : TaggedCongruence Alike (fun _ => True) fun _ p q => R p q where
  kind := h.kind
  line := h.line
  tag _ := trivial
  pure _ := h.pure _
  bind hp hf := h.bind hp fun b => hf b (allowed _)
  current := h.current
  tokens := h.tokens
  advance := h.advance
  failAt := h.failAt
  throw _ := h.throw _

theorem lineTag : R Parser.line Parser.line := h.tagged.lineTag

theorem at? (wanted : Symbol) : R (Parser.at? wanted) (Parser.at? wanted) := h.tagged.at? wanted

theorem atNewline : R Parser.atNewline Parser.atNewline := h.tagged.atNewline

theorem atEnd : R Parser.atEnd Parser.atEnd := h.tagged.atEnd

theorem eat? (wanted : Symbol) : R (Parser.eat? wanted) (Parser.eat? wanted) := h.tagged.eat? wanted

theorem eatNewline? : R Parser.eatNewline? Parser.eatNewline? := h.tagged.eatNewline?

theorem expect (wanted : Symbol) : R (Parser.expect wanted) (Parser.expect wanted) := h.tagged.expect wanted

theorem name : R Parser.name Parser.name := h.tagged.name

theorem refuse (symbol : Symbol) (feature : Feature) :
    R (Parser.refuse symbol feature) (Parser.refuse symbol feature) := h.tagged.refuse symbol feature

theorem stringsAfter (count : Nat) (value : String) :
    R (Level.stringsAfter count value) (Level.stringsAfter count value) := h.tagged.stringsAfter count value

theorem checkTarget (target : Expr Line) : R (Level.checkTarget target) (Level.checkTarget target) :=
  h.tagged.checkTarget trivial

theorem paramsAfter (count : Nat) (params : List String) :
    R (Level.paramsAfter count params) (Level.paramsAfter count params) := h.tagged.paramsAfter count params

variable {inner outer : Level} (hl : Level.Related R inner outer)

omit h in
include hl in
theorem tagRelated : Level.TagRelated (fun _ => True) (fun _ p q => R p q) inner outer :=
  ⟨hl.orExpr, hl.notExpr, hl.factor, hl.block⟩

include hl in
theorem returnValue : R inner.returnValue outer.returnValue := h.tagged.returnValue (tagRelated hl)

include hl in
/-- The levels around related levels are related. -/
theorem outward (bound : Nat) : Level.Related R (inner.outward bound) (outer.outward bound) := by
  have houtward := h.tagged.outward (tagRelated hl) bound
  exact ⟨houtward.orExpr, houtward.notExpr, houtward.factor, houtward.block⟩

include hl in
/-- The programs of related levels are related. -/
theorem programAfter (bound count : Nat) (found : List (Stmt Line)) :
    R (programAfter bound inner count found) (programAfter bound outer count found) :=
  h.tagged.programAfter (tagRelated hl) bound count found

/-- Every level is related to itself. -/
theorem level (bound depth : Nat) : Level.Related R (level bound depth) (level bound depth) := by
  have hlevel := h.tagged.level bound depth
  exact ⟨hlevel.orExpr, hlevel.notExpr, hlevel.factor, hlevel.block⟩

end Parser.Congruence

namespace Parser

/-! ### What a parser returns -/

section

variable {β γ : Type}

theorem bind_eq_ok {p : Parser β} {f : β → Parser γ} {ts rest : List Token} {c : γ} :
    (p >>= f) ts = .ok (c, rest) ↔
      ∃ b between, p ts = .ok (b, between) ∧ f b between = .ok (c, rest) := by
  show (p ts >>= fun r => f r.1 r.2) = _ ↔ _
  cases p ts with
  | error e => simp [bind, Except.bind]
  | ok r => exact ⟨fun h => ⟨r.1, r.2, rfl, h⟩, fun ⟨_, _, hr, h⟩ => by cases hr; exact h⟩

/-- Under a condition on the tokens, which holds of those that are left, the results have a
property. -/
def Yields (I : List Token → Prop) (p : Parser β) (P : β → Prop) : Prop :=
  ∀ ts, I ts → ∀ b rest, p ts = .ok (b, rest) → P b ∧ I rest

namespace Yields

variable {I : List Token → Prop} {P Q : β → Prop}

theorem bind {p : Parser β} {f : β → Parser γ} {Q : γ → Prop} (hp : Yields I p P)
    (hf : ∀ b, P b → Yields I (f b) Q) : Yields I (p >>= f) Q := by
  intro ts hts c rest h
  obtain ⟨b, between, hb, hc⟩ := bind_eq_ok.mp h
  obtain ⟨hPb, hbetween⟩ := hp ts hts b between hb
  exact hf b hPb between hbetween c rest hc

theorem pure {b : β} (hb : P b) : Yields I (pure b) P := by
  intro ts hts b' rest h
  cases h
  exact ⟨hb, hts⟩

theorem mono {p : Parser β} (hp : Yields I p P) (hPQ : ∀ b, P b → Q b) : Yields I p Q :=
  fun ts hts b rest h => (hp ts hts b rest h).imp_left (hPQ b)

theorem ite {p q : Parser β} {c : Prop} [Decidable c] (hp : Yields I p P) (hq : Yields I q P) :
    Yields I (if c then p else q) P := by
  split
  · exact hp
  · exact hq

theorem current : Yields I current fun _ => True := by
  intro ts hts t rest h
  cases ts <;> cases h <;> exact ⟨trivial, hts⟩

theorem failAt (t : Token) (cause : Cause) : Yields I (failAt t cause : Parser β) P := nofun

theorem fail (cause : Cause) : Yields I (fail cause : Parser β) P :=
  current.bind fun t _ => .failAt t cause

theorem failExpecting (wanted : Wanted) : Yields I (failExpecting wanted : Parser β) P :=
  current.bind fun t _ => .failAt t _

end Yields

end

/-- A condition that holds of later tokens is kept by all rules of the grammar. -/
theorem yields_congruence {I : List Token → Prop} (hI : ∀ {t ts}, I (t :: ts) → I ts) :
    Congruence Eq fun p _ => Yields I p fun _ => True where
  kind h := congrArg Token.kind h
  line h := congrArg Token.line h
  pure _ := .pure trivial
  bind hp hf := hp.bind fun b _ => hf b
  current h := Yields.current.bind fun t _ => h t t rfl
  tokens h := by
    intro ts hts b rest hrun
    obtain ⟨us, between, hget, hrun⟩ := bind_eq_ok.mp hrun
    cases hget
    exact h ts ts rfl ts hts b rest hrun
  advance := by
    intro ts hts b rest h
    match ts, h with
    | [], h | [_], h => cases h; exact ⟨trivial, hts⟩
    | _ :: _ :: _, h => cases h; exact ⟨trivial, hI hts⟩
  failAt _ _ := nofun
  throw _ := nofun

end Parser

/-- The program of a list of tokens has what the rule for programs yields. -/
theorem parseTokens_yields {I : List Token → Prop} {P : Block Line → Prop} {ts : List Token}
    (hp : Yields I (programAfter ts.length (level ts.length maxNesting) ts.length []) P) (hts : I ts)
    {body : Block Line} (h : parseTokens ts = .ok body) : P body := by
  unfold parseTokens parseTokensWithin StateT.run' at h
  cases hrun : programAfter ts.length (level ts.length maxNesting) ts.length [] ts with
  | error e => rw [hrun] at h; cases h
  | ok r =>
    rw [hrun] at h
    cases h
    exact (hp ts hts r.1 r.2 hrun).1

theorem parse_eq_ok {text : String} {body : Block Line} : parse text = .ok body ↔
    ∃ ts, tokenize text = .ok ts ∧ parseTokens ts = .ok body := by
  unfold parse
  cases tokenize text with
  | error e => exact ⟨nofun, fun ⟨_, h, _⟩ => nomatch h⟩
  | ok ts => exact ⟨fun h => ⟨ts, rfl, h⟩, fun ⟨_, hts, h⟩ => by cases hts; exact h⟩

end ProgramBreeding.Source

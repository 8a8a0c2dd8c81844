import ProgramBreeding.Proofs.Source.Nesting

/-!
# Reading back the tokens of an expression

The parser reads the tokens of an expression that can be written down as the expression,
whatever follows it that does not belong to it.

## Main definitions

* `ruleAt`, `continueAt` — the rule for a strength, and its loop after the first operand.
* `continuation` — the strength of the operator that goes on with an expression.
* `opening` — the strength of the rule that a token opens.
* `Reads` — the rule for a strength reads certain tokens as an expression.
* `Complete` — an expression is read back from its tokens, with any number of levels that
  is enough for it.

## Design notes

An operator that groups to the left has been read when its right operand has: the rule
then goes on with its loop.  `Reads` therefore ends in the loop and not in a result, and
is a fact about every operand of a chain.
-/

namespace ProgramBreeding.Source

open ProgramBreeding.Source.Parser Level

variable {α β γ : Type}

/-! ### Running parsers -/

namespace Parser

theorem bind_run {p : Parser β} {f : β → Parser γ} {ts rest : List Token} {b : β}
    (h : p ts = .ok (b, rest)) : (p >>= f) ts = f b rest := by
  show (p ts >>= fun r => f r.1 r.2) = _
  rw [h]
  rfl

theorem map_run {p : Parser β} {f : β → γ} {ts rest : List Token} {b : β}
    (h : p ts = .ok (b, rest)) : (f <$> p) ts = .ok (f b, rest) := by
  rw [map_eq_pure_bind]
  exact bind_run h

theorem current_cons (t : Token) (rest : List Token) :
    current (t :: rest) = .ok (t, t :: rest) := rfl

theorem advance_cons (t : Token) {rest : List Token} (h : rest ≠ []) :
    advance (t :: rest) = .ok ((), rest) := by
  cases rest with
  | nil => exact absurd rfl h
  | cons u rest => rfl

theorem at?_cons (t : Token) (rest : List Token) (symbol : Symbol) :
    at? symbol (t :: rest) = .ok (t.kind.isSymbol symbol, t :: rest) := rfl

theorem line_cons (t : Token) (rest : List Token) :
    line (t :: rest) = .ok (t.line, t :: rest) := rfl

theorem isSymbol_self {t : Token} {symbol : Symbol} (h : t.kind = .symbol symbol) :
    t.kind.isSymbol symbol = true := by
  rw [h]
  exact beq_self_eq_true symbol

theorem eq_of_isSymbol {kind : TokenKind} {wanted : Symbol} (h : kind.isSymbol wanted = true) :
    kind = .symbol wanted := by
  unfold TokenKind.isSymbol at h
  split at h
  · rw [eq_of_beq h]
  · cases h

theorem eat?_hit {t : Token} {rest : List Token} {symbol : Symbol} (ht : t.kind = .symbol symbol)
    (h : rest ≠ []) : eat? symbol (t :: rest) = .ok (true, rest) := by
  refine (bind_run (at?_cons t rest symbol)).trans ?_
  rw [isSymbol_self ht]
  exact bind_run (advance_cons t h)

theorem eat?_miss {t : Token} (rest : List Token) {symbol : Symbol}
    (ht : t.kind.isSymbol symbol = false) :
    eat? symbol (t :: rest) = .ok (false, t :: rest) := by
  refine (bind_run (at?_cons t rest symbol)).trans ?_
  rw [ht]
  rfl

theorem expect_hit {t : Token} {rest : List Token} {symbol : Symbol}
    (ht : t.kind = .symbol symbol) (h : rest ≠ []) :
    expect symbol (t :: rest) = .ok ((), rest) :=
  bind_run (eat?_hit ht h)

theorem refuse_miss {t : Token} (rest : List Token) {symbol : Symbol} (feature : Feature)
    (ht : t.kind.isSymbol symbol = false) :
    refuse symbol feature (t :: rest) = .ok ((), t :: rest) := by
  refine (bind_run (at?_cons t rest symbol)).trans ?_
  rw [ht]
  rfl

theorem name_hit {t : Token} {rest : List Token} {id : String} (ht : t.kind = .name id)
    (h : rest ≠ []) : name (t :: rest) = .ok (id, rest) := by
  refine (bind_run (current_cons t rest)).trans ?_
  rw [ht]
  exact bind_run (advance_cons t h)

end Parser

/-! ### Rules by strength -/

/-- The rule for a strength; beyond the strengths stand the atoms. -/
def ruleAt (bound : Nat) (inner : Level) : Nat → Parser (Expr Line)
  | 1 => inner.orRule bound
  | 2 => inner.andRule bound
  | 3 => inner.notRule bound
  | 4 => inner.comparison bound
  | 5 => inner.arith bound
  | 6 => inner.term bound
  | 7 => inner.factorRule bound
  | 8 => inner.power bound
  | 9 => inner.postfixed bound
  | _ => inner.atom bound

/-- The strengths whose rules are loops. -/
def isLoop : Nat → Bool
  | 1 | 2 | 5 | 6 | 9 => true
  | _ => false

/-- The loop of a rule after its first operand; the other rules are done then. -/
def continueAt (bound : Nat) (inner : Level) : Nat → Nat → Expr Line → Parser (Expr Line)
  | 1, count, left => chainAfter orOp? (inner.andRule bound) .logic count left
  | 2, count, left => chainAfter andOp? (inner.notRule bound) .logic count left
  | 5, count, left => chainAfter sumOp? (inner.term bound) .binary count left
  | 6, count, left => chainAfter productOp? (inner.factorRule bound) .binary count left
  | 9, count, left => inner.postfixAfter bound count left
  | _, _, left => pure left

/-- The strength of the operator that goes on with an expression; zero if none does. -/
def continuation : List TokenKind → Nat
  | .symbol .kwOr :: _ => 1
  | .symbol .kwAnd :: _ => 2
  | .symbol .lt :: _ | .symbol .gt :: _ | .symbol .ltEq :: _ | .symbol .gtEq :: _
  | .symbol .eqEq :: _ | .symbol .bangEq :: _ | .symbol .kwIn :: _ | .symbol .kwIs :: _
  | .symbol .kwNot :: .symbol .kwIn :: _ => 4
  | .symbol .plus :: _ | .symbol .minus :: _ => 5
  | .symbol .star :: _ | .symbol .slash :: _ | .symbol .slashSlash :: _ | .symbol .percent :: _ => 6
  | .symbol .starStar :: _ => 8
  | .symbol .leftParen :: _ | .symbol .leftBracket :: _ | .symbol .dot :: _ => 9
  | .str _ :: _ => 10
  | _ => 0

/-- The strength of the rule that a token opens, if an expression can start with it. -/
def opening : TokenKind → Option Nat
  | .symbol .kwNot => some 3
  | .symbol .plus | .symbol .minus => some 7
  | .name _ | .int _ | .float _ | .str _ | .symbol .kwTrue | .symbol .kwFalse | .symbol .kwNone
  | .symbol .leftParen | .symbol .leftBracket => some 10
  | _ => none

/-- The shape of an expression: its tags forgotten. -/
abbrev shapeOf (e : Expr α) : Expr Unit := e.map fun _ => ()

/-- With `n` levels left, the rule for strength `x` reads the tokens as the expression and
goes on with its loop. -/
def Reads (bound n x : Nat) (e : Expr α) (kinds : List TokenKind) : Prop :=
  ∀ ts rest : List Token, ts.map Token.kind = kinds → rest ≠ [] → (ts ++ rest).length ≤ bound →
    continuation (rest.map Token.kind) < (if isLoop x then x + 1 else x) →
      ∃ count e', rest.length ≤ count ∧ shapeOf e' = shapeOf e ∧
        ruleAt bound (level bound n) x (ts ++ rest) =
          continueAt bound (level bound n) x count e' rest

/-! ### Where an expression ends -/

section Continuation

variable {kind : TokenKind} {more : List TokenKind}

theorem orOp?_eq_none (h : continuation (kind :: more) < 1) : orOp? kind = none := by
  unfold orOp?
  split
  · exact absurd h (Nat.lt_irrefl _)
  · rfl

theorem andOp?_eq_none (h : continuation (kind :: more) < 2) : andOp? kind = none := by
  unfold andOp?
  split
  · exact absurd h (Nat.lt_irrefl _)
  · rfl

theorem sumOp?_eq_none (h : continuation (kind :: more) < 5) : sumOp? kind = none := by
  unfold sumOp?
  split
  · exact absurd h (Nat.lt_irrefl _)
  · exact absurd h (Nat.lt_irrefl _)
  · rfl

theorem productOp?_eq_none (h : continuation (kind :: more) < 6) : productOp? kind = none := by
  unfold productOp?
  split
  iterate 4 exact absurd h (Nat.lt_irrefl _)
  rfl

theorem compareOp?_eq_none {t : Token} {rest : List Token}
    (h : continuation (t.kind :: rest.map Token.kind) < 4) : compareOp? (t :: rest) = none := by
  unfold compareOp?
  dsimp only
  split
  iterate 7
    rename_i hkind
    rw [hkind] at h
    exact absurd h (Nat.lt_irrefl _)
  · rename_i hkind
    refine if_neg fun hin => ?_
    cases rest with
    | nil => cases hin
    | cons u rest =>
      have hu : u.kind = .symbol .kwIn := eq_of_isSymbol (by simpa using hin)
      rw [hkind, List.map_cons, hu] at h
      exact absurd h (Nat.lt_irrefl _)
  · rfl

theorem isSymbol_eq_false {wanted : Symbol} (h : kind ≠ .symbol wanted) :
    kind.isSymbol wanted = false := by
  cases hsymbol : kind.isSymbol wanted with
  | false => rfl
  | true => exact absurd (eq_of_isSymbol hsymbol) h

end Continuation

theorem chainAfter_stop {ω : Type} {op? : TokenKind → Option ω} {operand : Parser (Expr Line)}
    {join : Line → ω → Expr Line → Expr Line → Expr Line} {t : Token} {rest : List Token}
    (ht : op? t.kind = none) (left : Expr Line) : ∀ count : Nat,
      chainAfter op? operand join count left (t :: rest) = .ok (left, t :: rest)
  | 0 => rfl
  | count + 1 => by
    refine (bind_run (current_cons t rest)).trans ?_
    rw [ht]
    rfl

theorem chainAfter_step {ω : Type} {op? : TokenKind → Option ω} {operand : Parser (Expr Line)}
    {join : Line → ω → Expr Line → Expr Line → Expr Line} {t : Token} {more rest : List Token}
    {op : ω} {left right : Expr Line} {count : Nat} (ht : op? t.kind = some op) (hmore : more ≠ [])
    (hright : operand more = .ok (right, rest)) :
    chainAfter op? operand join (count + 1) left (t :: more) =
      chainAfter op? operand join count (join t.line op left right) rest := by
  refine (bind_run (current_cons t more)).trans ?_
  rw [ht]
  exact (bind_run (advance_cons t hmore)).trans (bind_run hright)

theorem postfixAfter_stop {bound : Nat} {inner : Level} {t : Token} {rest : List Token}
    (h : continuation (t.kind :: rest.map Token.kind) < 9) (value : Expr Line) : ∀ count : Nat,
      inner.postfixAfter bound count value (t :: rest) = .ok (value, t :: rest)
  | 0 => rfl
  | count + 1 => by
    refine (bind_run (current_cons t rest)).trans (congrFun (?_ : _ = (pure value : Parser _)) _)
    split
    iterate 3
      rename_i hkind
      rw [hkind] at h
      exact absurd h (Nat.lt_irrefl _)
    rfl

/-- A loop ends where no operator of its strength stands. -/
theorem continueAt_stop {bound x count : Nat} {inner : Level} {e : Expr Line} {rest : List Token}
    (hrest : rest ≠ []) (h : continuation (rest.map Token.kind) < x) :
    continueAt bound inner x count e rest = .ok (e, rest) := by
  obtain ⟨t, rest, rfl⟩ := List.exists_cons_of_ne_nil hrest
  unfold continueAt
  split
  · exact chainAfter_stop (orOp?_eq_none h) e count
  · exact chainAfter_stop (andOp?_eq_none h) e count
  · exact chainAfter_stop (sumOp?_eq_none h) e count
  · exact chainAfter_stop (productOp?_eq_none h) e count
  · exact postfixAfter_stop h e count
  · rfl

/-- A rule whose loop ends has read its expression. -/
theorem Reads.stop {bound n x : Nat} {e : Expr α} {kinds : List TokenKind}
    (h : Reads bound n x e kinds) {ts rest : List Token} (hts : ts.map Token.kind = kinds)
    (hrest : rest ≠ []) (hbound : (ts ++ rest).length ≤ bound)
    (hend : continuation (rest.map Token.kind) < x) :
    ∃ e', shapeOf e' = shapeOf e ∧
      ruleAt bound (level bound n) x (ts ++ rest) = .ok (e', rest) := by
  obtain ⟨count, e', -, hshape, hrun⟩ := h ts rest hts hrest hbound (by split <;> omega)
  exact ⟨e', hshape, hrun.trans (continueAt_stop hrest hend)⟩

/-! ### From one strength to the next -/

/-- A loop starts with an operand of the next strength. -/
theorem ruleAt_loop {bound x : Nat} {inner : Level} (hx : isLoop x = true) :
    ruleAt bound inner x =
      (ruleAt bound inner (x + 1) >>= fun first => continueAt bound inner x bound first) := by
  unfold isLoop at hx
  split at hx
  iterate 5 rfl
  cases hx

theorem not_isLoop_cases {x : Nat} (hx : isLoop x = false) (hpos : 1 ≤ x) (hle : x ≤ 9) :
    x = 3 ∨ x = 4 ∨ x = 7 ∨ x = 8 := by
  have hall : ∀ x < 10, isLoop x = false → 1 ≤ x → x = 3 ∨ x = 4 ∨ x = 7 ∨ x = 8 := by decide
  exact hall x (by omega) hx hpos

/-- Any other rule passes to the next strength, if its own operator is not there. -/
theorem ruleAt_pass {bound x : Nat} {inner : Level} (hx : x = 3 ∨ x = 4 ∨ x = 7 ∨ x = 8)
    {t : Token} {ts rest : List Token} {e : Expr Line}
    (ht : ∃ y, opening t.kind = some y ∧ x < y) (hrest : rest ≠ [])
    (hend : continuation (rest.map Token.kind) < x)
    (h : ruleAt bound inner (x + 1) (t :: ts ++ rest) = .ok (e, rest)) :
    ruleAt bound inner x (t :: ts ++ rest) = .ok (e, rest) := by
  obtain ⟨u, rest, rfl⟩ := List.exists_cons_of_ne_nil hrest
  obtain ⟨y, hopen, hlt⟩ := ht
  rcases hx with rfl | rfl | rfl | rfl
  · refine (bind_run (current_cons t _)).trans ?_
    rw [if_neg]
    · exact h
    · intro hnot
      rw [eq_of_isSymbol hnot] at hopen
      cases hopen
      omega
  · refine (bind_run h).trans ((bind_run rfl).trans ?_)
    rw [compareOp?_eq_none hend]
    rfl
  · refine (bind_run (current_cons t _)).trans ?_
    have hsign : signOp? t.kind = none := by
      unfold signOp?
      split
      iterate 2
        rename_i hkind
        rw [hkind] at hopen
        cases hopen
        omega
      rfl
    rw [hsign]
    exact h
  · refine (bind_run h).trans ((bind_run (current_cons u rest)).trans ?_)
    rw [if_neg]
    · rfl
    · intro hpower
      rw [List.map_cons, eq_of_isSymbol hpower] at hend
      exact absurd hend (Nat.lt_irrefl _)

/-- What a rule reads, a rule for less strength reads, too. -/
theorem Reads.lower {bound n x : Nat} {e : Expr α} {kinds : List TokenKind}
    (h : Reads bound n (x + 1) e kinds) (hpos : 1 ≤ x) (hle : x ≤ 9)
    (hlead : ∃ kind more y, kinds = kind :: more ∧ opening kind = some y ∧ x < y) :
    Reads bound n x e kinds := by
  intro ts rest hts hrest hbound hend
  cases hloop : isLoop x with
  | true =>
    rw [hloop, if_pos rfl] at hend
    obtain ⟨e', hshape, hrun⟩ := h.stop hts hrest hbound hend
    refine ⟨bound, e', ?_, hshape, ?_⟩
    · rw [List.length_append] at hbound
      omega
    · rw [ruleAt_loop hloop]
      exact bind_run hrun
  | false =>
    rw [hloop, if_neg Bool.false_ne_true] at hend
    obtain ⟨e', hshape, hrun⟩ := h.stop hts hrest hbound (by omega)
    obtain ⟨kind, more, y, rfl, hopen, hlt⟩ := hlead
    obtain ⟨t, ts, rfl, rfl, -⟩ := List.map_eq_cons_iff.mp hts
    have hpass := ruleAt_pass (not_isLoop_cases hloop hpos hle) ⟨y, hopen, hlt⟩ hrest hend hrun
    refine ⟨rest.length, e', Nat.le_refl _, hshape, ?_⟩
    rw [hpass, continueAt_stop hrest hend]

/-- A rule is entered from any weaker place. -/
theorem Reads.descend {bound n y : Nat} {e : Expr α} {kinds : List TokenKind} (hle : y ≤ 10)
    (h : Reads bound n y e kinds)
    (hlead : ∃ kind more z, kinds = kind :: more ∧ opening kind = some z ∧ y ≤ z) :
    ∀ distance x : Nat, x + distance = y → 1 ≤ x → Reads bound n x e kinds
  | 0, x, hx, _ => by
    rwa [← hx] at h
  | distance + 1, x, hx, hpos => by
    obtain ⟨kind, more, z, hkinds, hopen, hz⟩ := hlead
    exact (Reads.descend hle h ⟨kind, more, z, hkinds, hopen, hz⟩ distance (x + 1) (by omega)
      (by omega)).lower hpos (by omega) ⟨kind, more, z, hkinds, hopen, by omega⟩

/-! ### How an expression starts -/

theorem opening_literalKind (value : Literal) : opening (literalKind value) = some 10 := by
  cases value with
  | bool value => cases value <;> rfl
  | _ => rfl

theorem encloseKinds_lead {least : Strength} {e : Expr α} {kinds : List TokenKind}
    (h : ∃ kind more y, kinds = kind :: more ∧ opening kind = some y ∧ strength e ≤ y)
    (hle : least ≤ 10) :
    ∃ kind more y, encloseKinds least e kinds = kind :: more ∧ opening kind = some y ∧
      least ≤ y := by
  unfold encloseKinds
  split
  · exact ⟨_, _, 10, rfl, rfl, hle⟩
  · rename_i hstrength
    obtain ⟨kind, more, y, hkinds, hopen, hy⟩ := h
    exact ⟨kind, more, y, hkinds, hopen, Nat.le_trans (Nat.not_lt.mp hstrength) hy⟩

theorem lead_append {kinds more : List TokenKind} {least x : Nat} (hle : x ≤ least)
    (h : ∃ kind rest y, kinds = kind :: rest ∧ opening kind = some y ∧ least ≤ y) :
    ∃ kind rest y, kinds ++ more = kind :: rest ∧ opening kind = some y ∧ x ≤ y := by
  obtain ⟨kind, rest, y, rfl, hopen, hy⟩ := h
  exact ⟨kind, rest ++ more, y, rfl, hopen, Nat.le_trans hle hy⟩

theorem strength_le (e : Expr α) : strength e ≤ 9 := by
  cases e with
  | constant tag value =>
    show Strength.ofLiteral value ≤ 9
    unfold Strength.ofLiteral
    split <;> first | decide | (split <;> decide)
  | comprehension tag kind => cases kind <;> exact Nat.le_of_ble_eq_true rfl
  | binary tag op => cases op <;> exact Nat.le_of_ble_eq_true rfl
  | unary tag op => cases op <;> exact Nat.le_of_ble_eq_true rfl
  | logic tag op => cases op <;> exact Nat.le_of_ble_eq_true rfl
  | _ => exact Nat.le_of_ble_eq_true rfl

/-- The first token of an expression opens a rule that is as strong as the expression. -/
theorem bareKinds_lead : ∀ e : Expr α,
    ∃ kind more y, bareKinds e = kind :: more ∧ opening kind = some y ∧ strength e ≤ y
  | .name .. => ⟨_, _, 10, rfl, rfl, Nat.le_succ_of_le (strength_le _)⟩
  | .constant _ value =>
    ⟨_, _, 10, rfl, opening_literalKind value, Nat.le_succ_of_le (strength_le _)⟩
  | .list .. => ⟨_, _, 10, rfl, rfl, Nat.le_succ_of_le (strength_le _)⟩
  | .comprehension _ .list .. => ⟨_, _, 10, rfl, rfl, Nat.le_succ_of_le (strength_le _)⟩
  | .comprehension _ .generator element .. =>
    lead_append (Nat.zero_le _) (encloseKinds_lead (bareKinds_lead element) (by decide))
  | .binary _ op left right => by
    have hleft : Strength.ofBinary op ≤ Strength.leftOf op ∧ Strength.leftOf op ≤ 10 := by
      cases op <;> decide
    exact lead_append hleft.1 (encloseKinds_lead (bareKinds_lead left) hleft.2)
  | .unary _ op operand => by
    cases op with
    | not => exact ⟨_, _, 3, rfl, rfl, Nat.le_refl 3⟩
    | _ => exact ⟨_, _, 7, rfl, rfl, Nat.le_refl 7⟩
  | .logic _ op left right => by
    have hleft : Strength.ofLogic op ≤ 10 := by cases op <;> decide
    exact lead_append (Nat.le_refl _) (encloseKinds_lead (bareKinds_lead left) hleft)
  | .compare _ op left right =>
    lead_append (Nat.le_succ _) (encloseKinds_lead (bareKinds_lead left) (by decide))
  | .call _ callee args =>
    lead_append (Nat.le_refl _) (encloseKinds_lead (bareKinds_lead callee) (by decide))
  | .attribute _ value attr =>
    lead_append (Nat.le_refl _) (encloseKinds_lead (bareKinds_lead value) (by decide))
  | .subscript _ value index =>
    lead_append (Nat.le_refl _) (encloseKinds_lead (bareKinds_lead value) (by decide))

/-! ### Expressions in their places -/

/-- The brackets that close an expression. -/
def IsClosing (t : Token) : Prop := t.kind = .symbol .rightParen ∨ t.kind = .symbol .rightBracket

theorem IsClosing.continuation_eq {t : Token} (h : IsClosing t) (more : List TokenKind) :
    continuation (t.kind :: more) = 0 := by
  rcases h with h | h <;> rw [h] <;> rfl

theorem IsClosing.isSymbol_eq {t : Token} (h : IsClosing t) {wanted : Symbol}
    (hparen : wanted ≠ .rightParen) (hbracket : wanted ≠ .rightBracket) :
    t.kind.isSymbol wanted = false := by
  rcases h with h | h <;> rw [h]
  · exact beq_eq_false_iff_ne.mpr hparen.symm
  · exact beq_eq_false_iff_ne.mpr hbracket.symm

/-- Before a closing bracket the tokens are read as the element of a comprehension and
then as its clauses. -/
def ReadsClauses (bound n : Nat) (kind : ComprehensionKind) (e : Expr α)
    (kinds : List TokenKind) : Prop :=
  ∀ (ts rest : List Token) (close : Token), ts.map Token.kind = kinds → IsClosing close →
    (ts ++ close :: rest).length ≤ bound →
      ∃ element e' t more, t.kind = .symbol .kwFor ∧ shapeOf e' = shapeOf e ∧
        (level bound (n + 1)).orExpr (ts ++ close :: rest) = .ok (element, t :: more) ∧
        (level bound (n + 1)).clauses kind element (t :: more) = .ok (e', close :: rest)

/-- The expression is read back from its tokens with every sufficient number of levels. -/
def Complete (bound : Nat) (e : Expr α) : Prop :=
  ∀ n, e.Fits n → (1 ≤ strength e → Reads bound n (strength e) e (bareKinds e)) ∧
    (strength e = 0 → ReadsClauses bound n .generator e (bareKinds e))

theorem Complete.of_reads {bound : Nat} {e : Expr α} (hpos : 1 ≤ strength e)
    (h : ∀ n, e.Fits n → Reads bound n (strength e) e (bareKinds e)) : Complete bound e :=
  fun n hfits => ⟨fun _ => h n hfits, fun hzero => absurd (hzero ▸ hpos) (by decide)⟩

theorem not_closing_of_opening {kind : TokenKind} {y : Nat} (h : opening kind = some y) {symbol : Symbol}
    (hsymbol : opening (.symbol symbol) = none) : kind.isSymbol symbol = false := by
  refine isSymbol_eq_false fun hkind => ?_
  rw [hkind, hsymbol] at h
  cases h

/-- An expression that is no generator is read by the weakest rule. -/
theorem Complete.reads_or {bound n : Nat} {e : Expr α} (h : Complete bound e)
    (hfits : e.Fits n) (hpos : 1 ≤ strength e) : Reads bound n 1 e (bareKinds e) :=
  ((h n hfits).1 hpos).descend (Nat.le_succ_of_le (strength_le e)) (bareKinds_lead e)
    (strength e - 1) 1 (Nat.add_sub_cancel' hpos) (Nat.le_refl 1)

/-- What follows an opening parenthesis. -/
theorem Complete.parenthesized_run {bound n : Nat} {e : Expr α} (h : Complete bound e)
    (hfits : e.Fits n) {ts rest : List Token} {close : Token}
    (hts : ts.map Token.kind = bareKinds e) (hclose : close.kind = .symbol .rightParen)
    (hrest : rest ≠ []) (hbound : (ts ++ close :: rest).length ≤ bound) :
    ∃ e', shapeOf e' = shapeOf e ∧
      (level bound (n + 1)).parenthesized (ts ++ close :: rest) = .ok (e', rest) := by
  obtain ⟨kind, more, y, hkinds, hopen, -⟩ := bareKinds_lead e
  obtain ⟨t, ts', rfl, hkind, -⟩ := List.map_eq_cons_iff.mp (hts.trans hkinds)
  have hnoParen := not_closing_of_opening (hkind ▸ hopen) (show opening (.symbol .rightParen) = none from rfl)
  have hnoComma : close.kind.isSymbol .comma = false := by rw [hclose]; rfl
  have hnoFor : close.kind.isSymbol .kwFor = false := by rw [hclose]; rfl
  have hfinish : ∀ e' : Expr Line, (do
      refuse .comma .tuples
      expect .rightParen
      return e') (close :: rest) = .ok (e', rest) := fun e' =>
    (bind_run (refuse_miss rest _ hnoComma)).trans (bind_run (expect_hit hclose hrest))
  by_cases hpos : 1 ≤ strength e
  · obtain ⟨e', hshape, hrun⟩ := (h.reads_or hfits hpos).stop hts (List.cons_ne_nil close rest) hbound
      (by rw [List.map_cons, hclose]; exact Nat.one_pos)
    refine ⟨e', hshape, (bind_run (refuse_miss _ _ hnoParen)).trans ((bind_run hrun).trans ?_)⟩
    refine (bind_run (at?_cons close rest .kwFor)).trans ?_
    rw [hnoFor]
    exact hfinish e'
  · obtain ⟨element, e', u, mid, hfor, hshape, helement, hclauses⟩ :=
      (h n hfits).2 (Nat.eq_zero_of_not_pos hpos) (t :: ts') rest close hts (.inl hclose) hbound
    refine ⟨e', hshape, (bind_run (refuse_miss _ _ hnoParen)).trans ((bind_run helement).trans ?_)⟩
    refine (bind_run (at?_cons u mid .kwFor)).trans ?_
    rw [isSymbol_self hfor]
    exact (bind_run hclauses).trans (hfinish e')

/-- In parentheses an expression is an atom. -/
theorem Complete.reads_parenthesized {bound n : Nat} {e : Expr α} (h : Complete bound e)
    (hfits : e.Fits n) :
    Reads bound (n + 1) 10 e (.symbol .leftParen :: bareKinds e ++ [.symbol .rightParen]) := by
  intro ts rest hts hrest hbound _
  obtain ⟨opened, ts, rfl, hopened, hts⟩ := List.map_eq_cons_iff.mp hts
  obtain ⟨inside, last, rfl, hinside, hlast⟩ := List.map_eq_append_iff.mp hts
  obtain ⟨close, tail, rfl, hclose, htail⟩ := List.map_eq_cons_iff.mp hlast
  cases List.map_eq_nil_iff.mp htail
  rw [List.cons_append, List.append_assoc, List.singleton_append] at hbound ⊢
  obtain ⟨e', hshape, hrun⟩ := h.parenthesized_run hfits hinside hclose hrest
    (Nat.le_trans (Nat.le_succ _) hbound)
  refine ⟨rest.length, e', Nat.le_refl _, hshape, ?_⟩
  refine (bind_run (current_cons opened _)).trans ((bind_run (advance_cons opened (by simp))).trans ?_)
  rw [hopened]
  exact hrun

/-- An expression is read in every place that it fits in. -/
theorem Complete.reads {bound n x : Nat} {e : Expr α} (h : Complete bound e) (hpos : 1 ≤ x)
    (hle : x ≤ 9) (hfits : e.FitsIn x n) :
    Reads bound n x e (encloseKinds x e (bareKinds e)) := by
  unfold Expr.FitsIn EnclosedFits at hfits
  unfold encloseKinds
  by_cases hstrength : strength e < x
  · rw [if_pos hstrength] at hfits ⊢
    obtain ⟨n, rfl⟩ := Nat.exists_eq_succ_of_ne_zero (Nat.pos_iff_ne_zero.mp hfits.1)
    exact (h.reads_parenthesized hfits.2).descend (Nat.le_refl 10)
      ⟨_, _, 10, rfl, rfl, Nat.le_refl 10⟩ (10 - x) x (by omega) hpos
  · rw [if_neg hstrength] at hfits ⊢
    have hx : x ≤ strength e := Nat.not_lt.mp hstrength
    exact ((h n hfits).1 (Nat.le_trans hpos hx)).descend (Nat.le_succ_of_le (strength_le e))
      (bareKinds_lead e) (strength e - x) x (Nat.add_sub_cancel' hx) hpos

/-- An expression one level further in is read up to something that does not belong to it. -/
theorem Complete.orExpr_run {bound n : Nat} {e : Expr α} (h : Complete bound e)
    (hfits : e.FitsIn Strength.or n) (ts rest : List Token)
    (hts : ts.map Token.kind = expressionKinds e) (hrest : rest ≠ [])
    (hbound : (ts ++ rest).length ≤ bound) (hend : continuation (rest.map Token.kind) = 0) :
    ∃ e', shapeOf e' = shapeOf e ∧ (level bound (n + 1)).orExpr (ts ++ rest) = .ok (e', rest) :=
  (h.reads (Nat.le_refl 1) (by decide) hfits).stop hts hrest hbound (by omega)

/-! ### Names and constants -/

/-- A token that is an expression of its own. -/
theorem complete_of_atom {bound : Nat} {e : Expr α} {kind : TokenKind} (hkinds : bareKinds e = [kind])
    (hstrength : ∀ n, e.Fits n → strength e = 9) (hopen : opening kind = some 10)
    (hatom : ∀ n t rest, t.kind = kind → rest ≠ [] → continuation (rest.map Token.kind) < 10 →
      ∃ e', shapeOf e' = shapeOf e ∧
        (level bound n).atom bound (t :: rest) = .ok (e', rest)) : Complete bound e := by
  have hreads : ∀ n, e.Fits n → Reads bound n 9 e (bareKinds e) := by
    intro n hfits
    refine Reads.lower ?_ (by decide) (Nat.le_refl 9) ⟨kind, [], 10, hkinds, hopen, by decide⟩
    intro ts rest hts hrest hbound hend
    rw [hkinds] at hts
    obtain ⟨t, tail, rfl, hkind, htail⟩ := List.map_eq_cons_iff.mp hts
    cases List.map_eq_nil_iff.mp htail
    obtain ⟨e', hshape, hrun⟩ := hatom n t rest hkind hrest hend
    exact ⟨rest.length, e', Nat.le_refl _, hshape, hrun⟩
  intro n hfits
  have hnine := hstrength n hfits
  exact ⟨fun _ => hnine ▸ hreads n hfits, fun hzero => by rw [hnine] at hzero; cases hzero⟩

theorem complete_name {bound : Nat} (tag : α) (id : String) : Complete bound (.name tag id) := by
  refine complete_of_atom rfl (fun _ _ => rfl) rfl fun n t rest hkind hrest _ => ?_
  refine ⟨.name t.line id, rfl, (bind_run (current_cons t rest)).trans ?_⟩
  refine (bind_run (advance_cons t hrest)).trans ?_
  rw [hkind]
  rfl

theorem stringsAfter_stop {t : Token} {rest : List Token}
    (h : continuation (t.kind :: rest.map Token.kind) < 10) (value : String) :
    ∀ count : Nat, stringsAfter count value (t :: rest) = .ok (value, t :: rest)
  | 0 => rfl
  | count + 1 => by
    refine (bind_run (current_cons t rest)).trans (congrFun (?_ : _ = (pure value : Parser _)) _)
    split
    · rename_i hkind
      rw [hkind] at h
      exact absurd h (Nat.lt_irrefl _)
    · rfl

theorem complete_constant {bound : Nat} (tag : α) (value : Literal) :
    Complete bound (.constant tag value) := by
  refine complete_of_atom rfl (fun _ hfits => ofLiteral_eq_atom hfits) (opening_literalKind value)
    fun n t rest hkind hrest hend => ?_
  refine ⟨.constant t.line value, rfl, (bind_run (current_cons t rest)).trans ?_⟩
  refine (bind_run (advance_cons t hrest)).trans ?_
  rw [hkind]
  cases value with
  | str value =>
    obtain ⟨u, rest, rfl⟩ := List.exists_cons_of_ne_nil hrest
    exact bind_run (stringsAfter_stop hend value bound)
  | bool value => cases value <;> rfl
  | _ => rfl

/-! ### Brackets -/

theorem mapAll_eq (f : α → β) : ∀ items : List (Expr α),
    Expr.mapAll f items = items.map (·.map f)
  | [] => rfl
  | e :: rest => congrArg (e.map f :: ·) (mapAll_eq f rest)

/-- The condition of a comprehension and the end of its clauses. -/
theorem condition_run {bound n : Nat} {cond : Option (Expr α)}
    (hcond : ∀ e, cond = some e → Complete bound e) (hfits : Expr.FitCond n cond)
    {ts : List Token} (rest : List Token) {close : Token} (hts : ts.map Token.kind = condKinds cond)
    (hclose : IsClosing close) (hbound : (ts ++ close :: rest).length ≤ bound) :
    ∃ cond', Expr.mapCond (fun _ => ()) cond' = Expr.mapCond (fun _ => ()) cond ∧
      ∀ finish : Option (Expr Line) → Expr Line, (do
        let cond ← if ← eat? .kwIf then some <$> (level bound (n + 1)).orExpr else pure none
        if (← at? .kwFor) || (← at? .kwIf) then fail .extraClause
        return finish cond) (ts ++ close :: rest) = .ok (finish cond', close :: rest) := by
  have hnoFor := hclose.isSymbol_eq (show Symbol.kwFor ≠ .rightParen by decide) (by decide)
  have hnoIf := hclose.isSymbol_eq (show Symbol.kwIf ≠ .rightParen by decide) (by decide)
  have hend : ∀ e : Expr Line, (do
      if (← at? .kwFor) || (← at? .kwIf) then fail .extraClause
      return e) (close :: rest) = .ok (e, close :: rest) := by
    intro e
    refine (bind_run (at?_cons close rest .kwFor)).trans ((bind_run (at?_cons close rest .kwIf)).trans ?_)
    rw [hnoFor, hnoIf]
    rfl
  cases cond with
  | none =>
    cases List.map_eq_nil_iff.mp hts
    refine ⟨none, rfl, fun finish => (bind_run (eat?_miss rest hnoIf)).trans ?_⟩
    exact hend (finish none)
  | some e =>
    obtain ⟨tIf, ts, rfl, hif, hts⟩ := List.map_eq_cons_iff.mp hts
    obtain ⟨e', hshape, hrun⟩ := (hcond e rfl).orExpr_run hfits ts (close :: rest) hts
      (List.cons_ne_nil _ _) (Nat.le_trans (Nat.le_succ _) hbound) (hclose.continuation_eq _)
    refine ⟨some e', congrArg some hshape, fun finish => (bind_run (eat?_hit hif (by simp))).trans ?_⟩
    exact (bind_run (map_run hrun)).trans (hend (finish (some e')))

/-- The clauses of a comprehension are read after its element. -/
theorem reads_clauses {bound n : Nat} (kind : ComprehensionKind) (tag : α) {element source : Expr α}
    (var : String) {cond : Option (Expr α)} (helement : Complete bound element)
    (hsource : Complete bound source) (hcond : ∀ e, cond = some e → Complete bound e)
    (hfitsElement : element.FitsIn Strength.or n) (hfitsSource : source.FitsIn Strength.or n)
    (hfitsCond : Expr.FitCond n cond) :
    ReadsClauses bound n kind (.comprehension tag kind element var source cond)
      (expressionKinds element ++
        .symbol .kwFor :: .name var :: .symbol .kwIn :: (expressionKinds source ++ condKinds cond)) := by
  intro ts rest close hts hclose hbound
  obtain ⟨tsElement, more, rfl, helementKinds, hmore⟩ := List.map_eq_append_iff.mp hts
  obtain ⟨tFor, more, rfl, hfor, hmore⟩ := List.map_eq_cons_iff.mp hmore
  obtain ⟨tVar, more, rfl, hvar, hmore⟩ := List.map_eq_cons_iff.mp hmore
  obtain ⟨tIn, more, rfl, hin, hmore⟩ := List.map_eq_cons_iff.mp hmore
  obtain ⟨tsSource, tsCond, rfl, hsourceKinds, hcondKinds⟩ := List.map_eq_append_iff.mp hmore
  simp only [List.append_assoc, List.cons_append, List.length_append, List.length_cons] at hbound ⊢
  obtain ⟨element', helementShape, helementRun⟩ := helement.orExpr_run hfitsElement tsElement
    (tFor :: tVar :: tIn :: (tsSource ++ (tsCond ++ close :: rest))) helementKinds
    (List.cons_ne_nil _ _) (by simp only [List.length_append, List.length_cons]; omega)
    (by rw [List.map_cons, hfor]; rfl)
  have hend : continuation ((tsCond ++ close :: rest).map Token.kind) = 0 := by
    rw [List.map_append, hcondKinds]
    cases cond with
    | none => exact hclose.continuation_eq _
    | some e => rfl
  obtain ⟨source', hsourceShape, hsourceRun⟩ := hsource.orExpr_run hfitsSource tsSource
    (tsCond ++ close :: rest) hsourceKinds (by simp)
    (by simp only [List.length_append, List.length_cons]; omega) hend
  obtain ⟨cond', hcondShape, hcondRun⟩ := condition_run hcond hfitsCond rest hcondKinds hclose
    (by simp only [List.length_append, List.length_cons]; omega)
  refine ⟨element', .comprehension tFor.line kind element' var source' cond', tFor, _, hfor, ?_,
    helementRun, ?_⟩
  · simp only [shapeOf, Expr.map] at helementShape hsourceShape ⊢
    rw [helementShape, hsourceShape, hcondShape]
  · refine (bind_run (p := line) rfl).trans ((bind_run (expect_hit hfor (by simp))).trans ?_)
    refine (bind_run (name_hit hvar (by simp))).trans ?_
    refine (bind_run (refuse_miss _ _ (by rw [hin]; rfl))).trans ?_
    refine (bind_run (expect_hit hin (by simp))).trans ((bind_run hsourceRun).trans ?_)
    exact hcondRun (.comprehension tFor.line kind element' var source')

section Items

variable {bound n : Nat} {closing : Symbol} {check : Parser Unit}
  (hclosing : closing = .rightParen ∨ closing = .rightBracket)
  (hcheck : ∀ (t : Token) (rest : List Token), t.kind = .symbol .comma ∨ t.kind = .symbol closing →
    check (t :: rest) = .ok ((), t :: rest))
include hclosing hcheck

/-- One item of a bracket, before a comma or the end. -/
theorem item_run (kind : ComprehensionKind) {e : Expr α} (he : Complete bound e)
    (hfits : e.FitsIn Strength.or n) (items : List (Expr Line)) (count : Nat) {ts : List Token}
    {t : Token} (rest : List Token) (hts : ts.map Token.kind = expressionKinds e)
    (ht : t.kind = .symbol .comma ∨ t.kind = .symbol closing)
    (hbound : (ts ++ t :: rest).length ≤ bound) :
    ∃ e', shapeOf e' = shapeOf e ∧
      (level bound (n + 1)).itemsAfter kind closing check (count + 1) items (ts ++ t :: rest) = (do
        if ← eat? .comma then
          (level bound (n + 1)).itemsAfter kind closing check count (e' :: items)
        else
          expect closing
          return .inr (e' :: items).reverse) (t :: rest) := by
  obtain ⟨first, more, y, hkinds, hopen, -⟩ :=
    encloseKinds_lead (bareKinds_lead e) (show Strength.or ≤ 10 by decide)
  obtain ⟨u, ts, rfl, hu, -⟩ := List.map_eq_cons_iff.mp (hts.trans hkinds)
  have hnotClosing : u.kind.isSymbol closing = false := by
    refine not_closing_of_opening (hu ▸ hopen) ?_
    rcases hclosing with rfl | rfl <;> rfl
  have hend : continuation ((t :: rest).map Token.kind) = 0 := by
    rw [List.map_cons]
    rcases ht with ht | ht <;> rw [ht]
    · rfl
    · rcases hclosing with rfl | rfl <;> rfl
  have hnoFor : t.kind.isSymbol .kwFor = false := by
    rcases ht with ht | ht <;> rw [ht]
    · rfl
    · rcases hclosing with rfl | rfl <;> rfl
  obtain ⟨e', hshape, hrun⟩ := he.orExpr_run hfits _ (t :: rest) hts (List.cons_ne_nil _ _) hbound hend
  refine ⟨e', hshape, (bind_run (eat?_miss _ hnotClosing)).trans ((bind_run hrun).trans ?_)⟩
  refine (bind_run (at?_cons t rest .kwFor)).trans ?_
  rw [hnoFor, Bool.and_false]
  exact bind_run (hcheck t rest ht)

/-- The items of a bracket are read one after the other. -/
theorem itemsAfter_run (kind : ComprehensionKind) :
    ∀ (es : List (Expr α)) (items : List (Expr Line)) (count : Nat) (ts rest : List Token)
      (close : Token), (∀ e ∈ es, Complete bound e) → Expr.FitAll n Strength.or es →
        ts.map Token.kind = itemKinds Strength.or es → close.kind = .symbol closing → rest ≠ [] →
          (ts ++ close :: rest).length ≤ bound → (ts ++ close :: rest).length ≤ count →
            ∃ es', es'.map shapeOf = es.map shapeOf ∧
              (level bound (n + 1)).itemsAfter kind closing check count items (ts ++ close :: rest) =
                .ok (.inr (items.reverse ++ es'), rest)
  | [], items, 0, ts, rest, close, _, _, _, _, _, _, hcount => by
    simp at hcount
  | [], items, count + 1, ts, rest, close, _, _, hts, hclose, hrest, _, _ => by
    cases List.map_eq_nil_iff.mp hts
    exact ⟨[], rfl, by rw [List.append_nil]; exact bind_run (eat?_hit hclose hrest)⟩
  | e :: es, items, 0, ts, rest, close, _, _, _, _, _, _, hcount => by
    simp at hcount
  | [e], items, count + 1, ts, rest, close, hes, hfits, hts, hclose, hrest, hbound, _ => by
    rw [itemKinds, furtherKinds, List.append_nil] at hts
    obtain ⟨e', hshape, hrun⟩ := item_run hclosing hcheck kind (hes e List.mem_cons_self) hfits.1
      items count rest hts (.inr hclose) hbound
    refine ⟨[e'], congrArg (· :: []) hshape, hrun.trans ?_⟩
    have hnoComma : close.kind.isSymbol .comma = false := by
      rw [hclose]
      rcases hclosing with rfl | rfl <;> rfl
    refine (bind_run (eat?_miss rest hnoComma)).trans ((bind_run (expect_hit hclose hrest)).trans ?_)
    rw [List.reverse_cons]
    rfl
  | e :: e₂ :: es, items, count + 1, ts, rest, close, hes, hfits, hts, hclose, hrest, hbound, hcount => by
    obtain ⟨tsItem, tsMore, rfl, hitemKinds, hmoreKinds⟩ := List.map_eq_append_iff.mp hts
    obtain ⟨comma, tsMore, rfl, hcomma, hmoreKinds⟩ := List.map_eq_cons_iff.mp hmoreKinds
    simp only [List.append_assoc, List.cons_append] at hbound hcount ⊢
    obtain ⟨e', hshape, hrun⟩ := item_run hclosing hcheck kind (hes e List.mem_cons_self) hfits.1
      items count (tsMore ++ close :: rest) hitemKinds (.inl hcomma) hbound
    simp only [List.length_append, List.length_cons] at hbound hcount
    obtain ⟨es', hshapes, hruns⟩ := itemsAfter_run kind (e₂ :: es) (e' :: items) count tsMore rest close
      (fun e he => hes e (List.mem_cons_of_mem _ he)) hfits.2 hmoreKinds hclose hrest
      (by simp only [List.length_append, List.length_cons]; omega)
      (by simp only [List.length_append, List.length_cons]; omega)
    refine ⟨e' :: es', by rw [List.map_cons, List.map_cons, hshape, hshapes], hrun.trans ?_⟩
    refine (bind_run (eat?_hit hcomma (by simp))).trans (hruns.trans ?_)
    rw [List.reverse_cons, List.append_assoc]
    rfl

/-- A comprehension as the only item of a bracket. -/
theorem itemsAfter_clauses {kind : ComprehensionKind} {e : Expr α} {kinds : List TokenKind}
    (h : ReadsClauses bound n kind e kinds)
    (hlead : ∃ first more y, kinds = first :: more ∧ opening first = some y) {count : Nat}
    {ts rest : List Token} {close : Token} (hts : ts.map Token.kind = kinds)
    (hclose : close.kind = .symbol closing) (hrest : rest ≠ [])
    (hbound : (ts ++ close :: rest).length ≤ bound) :
    ∃ e', shapeOf e' = shapeOf e ∧
      (level bound (n + 1)).itemsAfter kind closing check (count + 1) [] (ts ++ close :: rest) =
        .ok (.inl e', rest) := by
  obtain ⟨first, more, y, hkinds, hopen⟩ := hlead
  obtain ⟨u, ts, rfl, hu, -⟩ := List.map_eq_cons_iff.mp (hts.trans hkinds)
  have hnotClosing : u.kind.isSymbol closing = false := by
    refine not_closing_of_opening (hu ▸ hopen) ?_
    rcases hclosing with rfl | rfl <;> rfl
  have hIsClosing : IsClosing close := by
    unfold IsClosing
    rw [hclose]
    rcases hclosing with rfl | rfl <;> simp
  obtain ⟨element, e', t, mid, hfor, hshape, helement, hclauses⟩ := h _ rest close hts hIsClosing hbound
  refine ⟨e', hshape, (bind_run (eat?_miss _ hnotClosing)).trans ((bind_run helement).trans ?_)⟩
  refine (bind_run (at?_cons t mid .kwFor)).trans ?_
  rw [isSymbol_self hfor]
  exact (bind_run hclauses).trans (bind_run (expect_hit hclose hrest))

end Items

theorem itemsAfter_empty {inner : Level} {kind : ComprehensionKind} {closing : Symbol}
    {check : Parser Unit} {count : Nat} {close : Token} {rest : List Token}
    (hclose : close.kind = .symbol closing) (hrest : rest ≠ [])
    (hcount : (close :: rest).length ≤ count) :
    inner.itemsAfter kind closing check count [] (close :: rest) = .ok (.inr [], rest) := by
  cases count with
  | zero => cases hcount
  | succ count => exact bind_run (eat?_hit hclose hrest)

theorem pass_bracket {t : Token} (rest : List Token)
    (_ : t.kind = .symbol .comma ∨ t.kind = .symbol .rightBracket) :
    (pure () : Parser Unit) (t :: rest) = .ok ((), t :: rest) := rfl

/-- What follows the bracket of a list display. -/
theorem listDisplay_run {bound n : Nat} {tag : α} {items : List (Expr α)}
    (hitems : ∀ e ∈ items, Complete bound e) (hfits : (Expr.list tag items).Fits n) (line : Line)
    {ts rest : List Token} {close : Token} (hts : ts.map Token.kind = itemKinds Strength.or items)
    (hclose : close.kind = .symbol .rightBracket) (hrest : rest ≠ [])
    (hbound : (ts ++ close :: rest).length ≤ bound) :
    ∃ e', shapeOf e' = shapeOf (.list tag items) ∧
      (level bound n).listDisplay bound line (ts ++ close :: rest) = .ok (e', rest) := by
  by_cases hempty : items = []
  · subst hempty
    cases List.map_eq_nil_iff.mp hts
    exact ⟨.list line [], rfl, bind_run (itemsAfter_empty hclose hrest hbound)⟩
  · obtain ⟨hpos, hall⟩ := hfits hempty
    obtain ⟨n, rfl⟩ := Nat.exists_eq_succ_of_ne_zero (Nat.pos_iff_ne_zero.mp hpos)
    obtain ⟨items', hshape, hrun⟩ := itemsAfter_run (.inr rfl) (fun _ => pass_bracket) .list items [] bound
      ts rest close hitems hall hts hclose hrest hbound hbound
    refine ⟨.list line items', ?_, bind_run hrun⟩
    simp only [shapeOf, Expr.map, mapAll_eq] at hshape ⊢
    rw [hshape]

theorem refuse_keyword {t : Token} (rest : List Token)
    (ht : t.kind = .symbol .comma ∨ t.kind = .symbol .rightParen) :
    refuse .eq .keywordArguments (t :: rest) = .ok ((), t :: rest) :=
  refuse_miss rest _ (by rcases ht with ht | ht <;> rw [ht] <;> rfl)

theorem isSoleGenerator_cases (args : List (Expr α)) : isSoleGenerator args = false ∨
    ∃ tag element var source cond,
      args = [.comprehension tag .generator element var source cond] := by
  unfold isSoleGenerator
  split
  · exact .inr ⟨_, _, _, _, _, rfl⟩
  · exact .inl rfl

/-- The arguments of a call, after its bracket. -/
theorem callArgs_run {bound n : Nat} {args : List (Expr α)} (hargs : ∀ e ∈ args, Complete bound e)
    (hfits : args ≠ [] → 0 < n ∧ Expr.FitAll (n - 1)
      (if isSoleGenerator args then Strength.generator else Strength.or) args)
    {ts rest : List Token} {close : Token}
    (hts : ts.map Token.kind =
      itemKinds (if isSoleGenerator args then Strength.generator else Strength.or) args)
    (hclose : close.kind = .symbol .rightParen) (hrest : rest ≠ [])
    (hbound : (ts ++ close :: rest).length ≤ bound) :
    ∃ args', args'.map shapeOf = args.map shapeOf ∧
      (level bound n).callArgs bound (ts ++ close :: rest) = .ok (args', rest) := by
  by_cases hempty : args = []
  · subst hempty
    cases List.map_eq_nil_iff.mp hts
    exact ⟨[], rfl, bind_run (itemsAfter_empty hclose hrest hbound)⟩
  obtain ⟨hpos, hall⟩ := hfits hempty
  obtain ⟨n, rfl⟩ := Nat.exists_eq_succ_of_ne_zero (Nat.pos_iff_ne_zero.mp hpos)
  rcases isSoleGenerator_cases args with hmany | ⟨tag, element, var, source, cond, rfl⟩
  · rw [hmany, if_neg Bool.false_ne_true] at hall hts
    obtain ⟨args', hshape, hrun⟩ := itemsAfter_run (.inl rfl) (fun _ => refuse_keyword) .generator args []
      bound ts rest close hargs hall hts hclose hrest hbound hbound
    exact ⟨args', hshape, bind_run hrun⟩
  · have hclauses := (hargs _ List.mem_cons_self n hall.1.fits).2 rfl
    have hts' : ts.map Token.kind = bareKinds (.comprehension tag .generator element var source cond) :=
      hts.trans (List.append_nil _)
    obtain ⟨first, more, y, hkinds, hopen, -⟩ :=
      bareKinds_lead (.comprehension tag .generator element var source cond)
    obtain ⟨count, rfl⟩ : ∃ count, bound = count + 1 := Nat.exists_eq_succ_of_ne_zero fun hzero => by
      simp [hzero] at hbound
    obtain ⟨e', hshape, hrun⟩ := itemsAfter_clauses (.inl rfl) (fun _ => refuse_keyword) hclauses
      ⟨first, more, y, hkinds, hopen⟩ hts' hclose hrest hbound
    exact ⟨[e'], congrArg (· :: []) hshape, bind_run hrun⟩

/-! ### Operations -/

/-- No operator that goes on with an expression has the strength of a sign. -/
theorem continuation_lt_sign {kinds : List TokenKind} (h : continuation kinds < 8) :
    continuation kinds < 7 := by
  have hne : continuation kinds ≠ 7 := by
    unfold continuation
    split <;> decide
  omega

/-- An operation of a loop: its left operand is read by the same rule. -/
theorem reads_chain {bound n x : Nat} {ω : Type} (op? : TokenKind → Option ω)
    (join : Line → ω → Expr Line → Expr Line → Expr Line) (hloop : isLoop x = true)
    (hcontinue : ∀ inner count left, continueAt bound inner x count left =
      chainAfter op? (ruleAt bound inner (x + 1)) join count left)
    {symbol : Symbol} {op : ω} (hop : op? (.symbol symbol) = some op)
    (hsymbol : ∀ more, continuation (.symbol symbol :: more) = x) {left right e : Expr α}
    {kinds kinds' : List TokenKind} (hleft : Reads bound n x left kinds)
    (hright : Reads bound n (x + 1) right kinds')
    (hshape : ∀ line left' right', shapeOf left' = shapeOf left → shapeOf right' = shapeOf right →
      shapeOf (join line op left' right') = shapeOf e) :
    Reads bound n x e (kinds ++ .symbol symbol :: kinds') := by
  intro ts rest hts hrest hbound hend
  obtain ⟨tsLeft, more, rfl, hleftKinds, hmore⟩ := List.map_eq_append_iff.mp hts
  obtain ⟨t, tsRight, rfl, ht, hrightKinds⟩ := List.map_eq_cons_iff.mp hmore
  rw [hloop, if_pos rfl] at hend
  simp only [List.append_assoc, List.cons_append] at hbound ⊢
  obtain ⟨count, left', hcount, hleftShape, hleftRun⟩ := hleft tsLeft (t :: (tsRight ++ rest)) hleftKinds
    (List.cons_ne_nil _ _) hbound (by rw [List.map_cons, ht, hsymbol, hloop, if_pos rfl]; omega)
  simp only [List.length_append, List.length_cons] at hbound hcount
  obtain ⟨right', hrightShape, hrightRun⟩ := hright.stop hrightKinds hrest
    (by rw [List.length_append]; omega) hend
  obtain ⟨count, rfl⟩ : ∃ k, count = k + 1 := Nat.exists_eq_succ_of_ne_zero (by omega)
  refine ⟨count, join t.line op left' right', by omega, hshape _ _ _ hleftShape hrightShape, ?_⟩
  rw [hleftRun, hcontinue, hcontinue]
  exact chainAfter_step (by rw [ht]; exact hop) (by simp [hrest]) hrightRun

theorem complete_logic {bound : Nat} (tag : α) (op : LogicOp) {left right : Expr α}
    (hleft : Complete bound left) (hright : Complete bound right) :
    Complete bound (.logic tag op left right) := by
  have hshape : ∀ (line : Line) left' right', shapeOf left' = shapeOf left →
      shapeOf right' = shapeOf right →
        shapeOf (Expr.logic line op left' right') = shapeOf (.logic tag op left right) := by
    intro line left' right' hleftShape hrightShape
    simp only [shapeOf, Expr.map] at hleftShape hrightShape ⊢
    rw [hleftShape, hrightShape]
  have hstrength : 1 ≤ Strength.ofLogic op ∧ Strength.ofLogic op + 1 ≤ 9 := by cases op <;> decide
  refine .of_reads hstrength.1 fun n hfits => ?_
  have hl := hleft.reads hstrength.1 (Nat.le_of_succ_le hstrength.2) hfits.1
  have hr := hright.reads (Nat.le_add_left 1 _) hstrength.2 hfits.2
  cases op with
  | or => exact reads_chain orOp? .logic rfl (fun _ _ _ => rfl) rfl (fun _ => rfl) hl hr hshape
  | and => exact reads_chain andOp? .logic rfl (fun _ _ _ => rfl) rfl (fun _ => rfl) hl hr hshape

/-- A power: its exponent is one level further in. -/
theorem reads_power {bound n : Nat} (tag : α) {left right : Expr α} (hleft : Complete bound left)
    (hright : Complete bound right) (hfitsLeft : left.FitsIn Strength.atom (n + 1))
    (hfitsRight : right.FitsIn Strength.sign n) :
    Reads bound (n + 1) 8 (.binary tag .pow left right)
      (encloseKinds Strength.atom left (bareKinds left) ++
        .symbol .starStar :: encloseKinds Strength.sign right (bareKinds right)) := by
  intro ts rest hts hrest hbound hend
  obtain ⟨tsLeft, more, rfl, hleftKinds, hmore⟩ := List.map_eq_append_iff.mp hts
  obtain ⟨t, tsRight, rfl, ht, hrightKinds⟩ := List.map_eq_cons_iff.mp hmore
  simp only [List.append_assoc, List.cons_append] at hbound ⊢
  obtain ⟨left', hleftShape, hleftRun⟩ := (hleft.reads (by decide) (by decide) hfitsLeft).stop hleftKinds
    (List.cons_ne_nil _ _) hbound (by rw [List.map_cons, ht]; exact Nat.lt_succ_self 8)
  simp only [List.length_append, List.length_cons] at hbound
  obtain ⟨right', hrightShape, hrightRun⟩ := (hright.reads (by decide) (by decide) hfitsRight).stop
    hrightKinds hrest (by rw [List.length_append]; omega) (continuation_lt_sign hend)
  refine ⟨rest.length, .binary t.line .pow left' right', Nat.le_refl _, ?_, ?_⟩
  · simp only [shapeOf, Expr.map] at hleftShape hrightShape ⊢
    rw [hleftShape, hrightShape]
  · refine (bind_run hleftRun).trans ((bind_run (current_cons t _)).trans ?_)
    rw [isSymbol_self ht]
    exact (bind_run (advance_cons t (by simp [hrest]))).trans (bind_run hrightRun)

theorem complete_binary {bound : Nat} (tag : α) (op : BinaryOp) {left right : Expr α}
    (hleft : Complete bound left) (hright : Complete bound right) :
    Complete bound (.binary tag op left right) := by
  have hshape : ∀ (line : Line) left' right', shapeOf left' = shapeOf left →
      shapeOf right' = shapeOf right →
        shapeOf (Expr.binary line op left' right') = shapeOf (.binary tag op left right) := by
    intro line left' right' hleftShape hrightShape
    simp only [shapeOf, Expr.map] at hleftShape hrightShape ⊢
    rw [hleftShape, hrightShape]
  have hstrength : 1 ≤ Strength.ofBinary op ∧ Strength.ofBinary op + 1 ≤ 9 := by cases op <;> decide
  refine .of_reads hstrength.1 fun n hfits => ?_
  by_cases hpow : op = .pow
  · subst hpow
    obtain ⟨hfitsLeft, hpos, hfitsRight⟩ := hfits
    obtain ⟨n, rfl⟩ := Nat.exists_eq_succ_of_ne_zero (Nat.pos_iff_ne_zero.mp hpos)
    exact reads_power tag hleft hright hfitsLeft hfitsRight
  · have hplaces : Strength.leftOf op = Strength.ofBinary op ∧
        Strength.rightOf op = Strength.ofBinary op + 1 := by
      cases op <;> first | exact ⟨rfl, rfl⟩ | exact absurd rfl hpow
    obtain ⟨hfitsLeft, hfitsRight⟩ := hfits
    rw [if_neg hpow, hplaces.2] at hfitsRight
    rw [hplaces.1] at hfitsLeft
    have hl := hleft.reads hstrength.1 (Nat.le_of_succ_le hstrength.2) hfitsLeft
    have hr := hright.reads (Nat.le_add_left 1 _) hstrength.2 hfitsRight
    rw [bareKinds, hplaces.1, hplaces.2]
    cases op with
    | pow => exact absurd rfl hpow
    | add => exact reads_chain sumOp? .binary rfl (fun _ _ _ => rfl) rfl (fun _ => rfl) hl hr hshape
    | sub => exact reads_chain sumOp? .binary rfl (fun _ _ _ => rfl) rfl (fun _ => rfl) hl hr hshape
    | mul => exact reads_chain productOp? .binary rfl (fun _ _ _ => rfl) rfl (fun _ => rfl) hl hr hshape
    | div => exact reads_chain productOp? .binary rfl (fun _ _ _ => rfl) rfl (fun _ => rfl) hl hr hshape
    | floorDiv => exact reads_chain productOp? .binary rfl (fun _ _ _ => rfl) rfl (fun _ => rfl) hl hr hshape
    | mod => exact reads_chain productOp? .binary rfl (fun _ _ _ => rfl) rfl (fun _ => rfl) hl hr hshape

theorem complete_unary {bound : Nat} (tag : α) (op : UnaryOp) {operand : Expr α}
    (hoperand : Complete bound operand) : Complete bound (.unary tag op operand) := by
  have hstrength : 1 ≤ Strength.ofUnary op ∧ Strength.ofUnary op ≤ 9 ∧
      isLoop (Strength.ofUnary op) = false := by cases op <;> decide
  refine .of_reads hstrength.1 fun n hfits => ?_
  obtain ⟨hpos, hfits⟩ := hfits
  obtain ⟨n, rfl⟩ := Nat.exists_eq_succ_of_ne_zero (Nat.pos_iff_ne_zero.mp hpos)
  intro ts rest hts hrest hbound hend
  rw [strength, hstrength.2.2, if_neg Bool.false_ne_true] at hend
  obtain ⟨t, ts, rfl, ht, hoperandKinds⟩ := List.map_eq_cons_iff.mp hts
  obtain ⟨operand', hshape, hrun⟩ := (hoperand.reads hstrength.1 hstrength.2.1 hfits).stop hoperandKinds
    hrest (Nat.le_trans (Nat.le_succ _) hbound) hend
  refine ⟨rest.length, .unary t.line op operand', Nat.le_refl _, ?_, ?_⟩
  · simp only [shapeOf, Expr.map] at hshape ⊢
    rw [hshape]
  · have hadvance := advance_cons t (show ts ++ rest ≠ [] by simp [hrest])
    cases op with
    | not =>
      have hnot : t.kind = .symbol .kwNot := ht
      refine (bind_run (current_cons t _)).trans ?_
      rw [isSymbol_self hnot]
      exact (bind_run hadvance).trans (bind_run hrun)
    | neg =>
      have hminus : t.kind = .symbol .minus := ht
      refine (bind_run (current_cons t _)).trans ?_
      rw [hminus]
      exact (bind_run hadvance).trans (bind_run hrun)
    | pos =>
      have hplus : t.kind = .symbol .plus := ht
      refine (bind_run (current_cons t _)).trans ?_
      rw [hplus]
      exact (bind_run hadvance).trans (bind_run hrun)

/-- A comparison operator is found by its tokens, and its tokens are passed over. -/
theorem compareOp?_run (op : CompareOp) {ts rest : List Token}
    (hts : ts.map Token.kind = (compareSymbols op).map .symbol) (hrest : rest ≠ []) :
    ∃ width, compareOp? (ts ++ rest) = some (op, width) ∧
      ∀ p : Parser (Expr Line), (do
        advance
        if width = 2 then advance
        p) (ts ++ rest) = p rest := by
  cases op with
  | notMem =>
    obtain ⟨t, ts, rfl, ht, hts⟩ := List.map_eq_cons_iff.mp hts
    obtain ⟨u, ts, rfl, hu, hts⟩ := List.map_eq_cons_iff.mp hts
    cases List.map_eq_nil_iff.mp hts
    refine ⟨2, ?_, fun p => (bind_run (advance_cons t (by simp))).trans (bind_run (advance_cons u hrest))⟩
    show compareOp? (t :: u :: rest) = _
    unfold compareOp?
    dsimp only
    rw [ht]
    exact if_pos (isSymbol_self hu)
  | _ =>
    obtain ⟨t, ts, rfl, ht, hts⟩ := List.map_eq_cons_iff.mp hts
    cases List.map_eq_nil_iff.mp hts
    refine ⟨1, ?_, fun p => bind_run (advance_cons t hrest)⟩
    show compareOp? (t :: rest) = _
    unfold compareOp?
    dsimp only
    rw [ht]

theorem complete_compare {bound : Nat} (tag : α) (op : CompareOp) {left right : Expr α}
    (hleft : Complete bound left) (hright : Complete bound right) :
    Complete bound (.compare tag op left right) := by
  refine .of_reads (Nat.le_of_ble_eq_true rfl) fun n hfits => ?_
  intro ts rest hts hrest hbound hend
  have hstop : continuation (rest.map Token.kind) < 4 := hend
  obtain ⟨tsLeft, more, rfl, hleftKinds, hmore⟩ := List.map_eq_append_iff.mp hts
  obtain ⟨tsOp, tsRight, rfl, hopKinds, hrightKinds⟩ := List.map_eq_append_iff.mp hmore
  simp only [List.append_assoc] at hbound ⊢
  have hcontinue : continuation ((tsOp ++ (tsRight ++ rest)).map Token.kind) = 4 := by
    rw [List.map_append, hopKinds]
    cases op <;> rfl
  obtain ⟨left', hleftShape, hleftRun⟩ := (hleft.reads (by decide) (by decide) hfits.1).stop hleftKinds
    (by simp [hrest]) hbound (by rw [hcontinue]; exact Nat.lt_succ_self 4)
  simp only [List.length_append] at hbound
  obtain ⟨right', hrightShape, hrightRun⟩ := (hright.reads (by decide) (by decide) hfits.2).stop
    hrightKinds hrest (by rw [List.length_append]; omega) (Nat.lt_succ_of_lt hstop)
  obtain ⟨width, hop, hwidth⟩ := compareOp?_run op hopKinds (show tsRight ++ rest ≠ [] by simp [hrest])
  obtain ⟨u, rest, rfl⟩ := List.exists_cons_of_ne_nil hrest
  have hnoIs : u.kind.isSymbol .kwIs = false := isSymbol_eq_false fun hu => by
    rw [List.map_cons, hu] at hstop
    exact absurd hstop (Nat.lt_irrefl _)
  obtain ⟨v, more, hv⟩ := List.exists_cons_of_ne_nil
    (show tsOp ++ (tsRight ++ u :: rest) ≠ [] by simp)
  refine ⟨(u :: rest).length, .compare v.line op left' right', Nat.le_refl _, ?_, ?_⟩
  · simp only [shapeOf, Expr.map] at hleftShape hrightShape ⊢
    rw [hleftShape, hrightShape]
  · refine (bind_run hleftRun).trans ((bind_run (p := get) rfl).trans ?_)
    rw [hop, hv]
    refine (bind_run (line_cons v more)).trans ?_
    rw [← hv]
    refine (hwidth _).trans ((bind_run hrightRun).trans ((bind_run (p := get) rfl).trans ?_))
    rw [compareOp?_eq_none hstop]
    exact bind_run (refuse_miss rest _ hnoIs)

/-! ### Displays, calls, subscripts and attributes -/

/-- An expression in square brackets is an atom. -/
theorem reads_bracketed {bound n : Nat} {e : Expr α} {kinds : List TokenKind}
    (h : ∀ (line : Line) (ts rest : List Token) (close : Token), ts.map Token.kind = kinds →
      close.kind = .symbol .rightBracket → rest ≠ [] → (ts ++ close :: rest).length ≤ bound →
        ∃ e', shapeOf e' = shapeOf e ∧
          (level bound n).listDisplay bound line (ts ++ close :: rest) = .ok (e', rest)) :
    Reads bound n 9 e (.symbol .leftBracket :: kinds ++ [.symbol .rightBracket]) := by
  refine Reads.lower ?_ (by decide) (Nat.le_refl 9) ⟨_, _, 10, rfl, rfl, by decide⟩
  intro ts rest hts hrest hbound _
  obtain ⟨opened, ts, rfl, hopened, hts⟩ := List.map_eq_cons_iff.mp hts
  obtain ⟨inside, last, rfl, hinside, hlast⟩ := List.map_eq_append_iff.mp hts
  obtain ⟨close, tail, rfl, hclose, htail⟩ := List.map_eq_cons_iff.mp hlast
  cases List.map_eq_nil_iff.mp htail
  rw [List.cons_append, List.append_assoc, List.singleton_append] at hbound ⊢
  obtain ⟨e', hshape, hrun⟩ := h opened.line inside rest close hinside hclose hrest
    (Nat.le_trans (Nat.le_succ _) hbound)
  refine ⟨rest.length, e', Nat.le_refl _, hshape, ?_⟩
  refine (bind_run (current_cons opened _)).trans ((bind_run (advance_cons opened (by simp))).trans ?_)
  rw [hopened]
  exact hrun

theorem complete_list {bound : Nat} (tag : α) {items : List (Expr α)}
    (hitems : ∀ e ∈ items, Complete bound e) : Complete bound (.list tag items) :=
  .of_reads (Nat.le_of_ble_eq_true rfl) fun _ hfits =>
    reads_bracketed fun line _ _ _ hts hclose hrest hbound =>
      listDisplay_run hitems hfits line hts hclose hrest hbound

theorem complete_comprehension {bound : Nat} (tag : α) (kind : ComprehensionKind) (var : String)
    {element source : Expr α} {cond : Option (Expr α)} (helement : Complete bound element)
    (hsource : Complete bound source) (hcond : ∀ e, cond = some e → Complete bound e) :
    Complete bound (.comprehension tag kind element var source cond) := by
  cases kind with
  | generator =>
    refine fun n hfits => ⟨fun hpos => absurd hpos (Nat.lt_irrefl 0), fun _ => ?_⟩
    obtain ⟨-, hfitsElement, hfitsSource, hfitsCond⟩ := hfits
    exact reads_clauses .generator tag var helement hsource hcond hfitsElement hfitsSource hfitsCond
  | list =>
    refine .of_reads (Nat.le_of_ble_eq_true rfl) fun n hfits => ?_
    obtain ⟨hpos, -, hfitsElement, hfitsSource, hfitsCond⟩ := hfits
    obtain ⟨n, rfl⟩ := Nat.exists_eq_succ_of_ne_zero (Nat.pos_iff_ne_zero.mp hpos)
    refine reads_bracketed fun line ts rest close hts hclose hrest hbound => ?_
    have hclauses := reads_clauses .list tag var helement hsource hcond hfitsElement hfitsSource
      hfitsCond
    obtain ⟨first, more, y, hkinds, hopen, -⟩ := lead_append (Nat.zero_le _)
      (encloseKinds_lead (bareKinds_lead element) (show Strength.or ≤ 10 by decide))
    obtain ⟨count, rfl⟩ : ∃ count, bound = count + 1 := Nat.exists_eq_succ_of_ne_zero fun hzero => by
      simp [hzero] at hbound
    obtain ⟨e', hshape, hrun⟩ := itemsAfter_clauses (.inr rfl) (fun _ => pass_bracket) hclauses
      ⟨first, more, y, hkinds, hopen⟩ hts hclose hrest hbound
    exact ⟨e', hshape, bind_run hrun⟩

/-- One more suffix after an expression that the loop of suffixes has read. -/
theorem Complete.reads_suffixed {bound n : Nat} {value e : Expr α} (h : Complete bound value)
    (hfits : value.FitsIn Strength.atom n) {symbol : Symbol} {kinds : List TokenKind}
    (hsymbol : ∀ more, continuation (.symbol symbol :: more) = 9)
    (hstep : ∀ (t : Token) (ts rest : List Token) (value' : Expr Line) (count : Nat),
      t.kind = .symbol symbol → ts.map Token.kind = kinds → rest ≠ [] →
        (ts ++ rest).length ≤ bound → shapeOf value' = shapeOf value →
          ∃ e', shapeOf e' = shapeOf e ∧
            (level bound n).postfixAfter bound (count + 1) value' (t :: (ts ++ rest)) =
              (level bound n).postfixAfter bound count e' rest) :
    Reads bound n 9 e
      (encloseKinds Strength.atom value (bareKinds value) ++ .symbol symbol :: kinds) := by
  intro ts rest hts hrest hbound hend
  obtain ⟨tsValue, more, rfl, hvalueKinds, hmore⟩ := List.map_eq_append_iff.mp hts
  obtain ⟨t, tsSuffix, rfl, ht, hsuffixKinds⟩ := List.map_eq_cons_iff.mp hmore
  rw [List.append_assoc, List.cons_append] at hbound ⊢
  obtain ⟨count, value', hcount, hshape, hrun⟩ := h.reads (by decide) (Nat.le_refl 9) hfits tsValue
    (t :: (tsSuffix ++ rest)) hvalueKinds (List.cons_ne_nil _ _) hbound
    (by rw [List.map_cons, ht, hsymbol]; decide)
  simp only [List.length_append, List.length_cons] at hbound hcount
  obtain ⟨count, rfl⟩ : ∃ k, count = k + 1 := Nat.exists_eq_succ_of_ne_zero (by omega)
  obtain ⟨e', hshape', hstep⟩ := hstep t tsSuffix rest value' count ht hsuffixKinds hrest
    (by rw [List.length_append]; omega) hshape
  exact ⟨count, e', by omega, hshape', hrun.trans hstep⟩

theorem complete_attribute {bound : Nat} (tag : α) (attr : String) {value : Expr α}
    (hvalue : Complete bound value) : Complete bound (.attribute tag value attr) := by
  refine .of_reads (Nat.le_of_ble_eq_true rfl) fun n hfits => ?_
  refine hvalue.reads_suffixed hfits.1 (fun _ => rfl) ?_
  intro t ts rest value' count ht hts hrest _ hshape
  obtain ⟨tName, tail, rfl, hname, htail⟩ := List.map_eq_cons_iff.mp hts
  cases List.map_eq_nil_iff.mp htail
  refine ⟨.attribute t.line value' attr, ?_, ?_⟩
  · simp only [shapeOf, Expr.map] at hshape ⊢
    rw [hshape]
  · refine (bind_run (current_cons t _)).trans ?_
    rw [ht]
    exact (bind_run (advance_cons t (List.cons_ne_nil _ _))).trans (bind_run (name_hit hname hrest))

theorem complete_subscript {bound : Nat} (tag : α) {value index : Expr α}
    (hvalue : Complete bound value) (hindex : Complete bound index) :
    Complete bound (.subscript tag value index) := by
  refine .of_reads (Nat.le_of_ble_eq_true rfl) fun n hfits => ?_
  obtain ⟨hfitsValue, hpos, hfitsIndex⟩ := hfits
  obtain ⟨n, rfl⟩ := Nat.exists_eq_succ_of_ne_zero (Nat.pos_iff_ne_zero.mp hpos)
  refine hvalue.reads_suffixed hfitsValue (fun _ => rfl) ?_
  intro t ts rest value' count ht hts hrest hbound hshape
  obtain ⟨tsIndex, last, rfl, hindexKinds, hlast⟩ := List.map_eq_append_iff.mp hts
  obtain ⟨close, tail, rfl, hclose, htail⟩ := List.map_eq_cons_iff.mp hlast
  cases List.map_eq_nil_iff.mp htail
  rw [List.append_assoc, List.singleton_append] at hbound ⊢
  obtain ⟨index', hindexShape, hrun⟩ := hindex.orExpr_run hfitsIndex tsIndex (close :: rest)
    hindexKinds (List.cons_ne_nil _ _) hbound (by rw [List.map_cons, hclose]; rfl)
  obtain ⟨first, more, y, hkinds, hopen, -⟩ :=
    encloseKinds_lead (bareKinds_lead index) (show Strength.or ≤ 10 by decide)
  obtain ⟨u, tsIndex, rfl, hu, -⟩ := List.map_eq_cons_iff.mp (hindexKinds.trans hkinds)
  have hnoColon := not_closing_of_opening (hu ▸ hopen) (show opening (.symbol .colon) = none from rfl)
  have hindexRun : (level bound (n + 1)).subscriptIndex (u :: tsIndex ++ close :: rest) =
      .ok (index', rest) := by
    refine (bind_run (refuse_miss _ _ hnoColon)).trans ((bind_run hrun).trans ?_)
    refine (bind_run (refuse_miss rest _ (by rw [hclose]; rfl))).trans ?_
    exact bind_run (expect_hit hclose hrest)
  refine ⟨.subscript t.line value' index', ?_, ?_⟩
  · simp only [shapeOf, Expr.map] at hshape hindexShape ⊢
    rw [hshape, hindexShape]
  · refine (bind_run (current_cons t _)).trans ?_
    rw [ht]
    exact (bind_run (advance_cons t (List.cons_ne_nil _ _))).trans (bind_run hindexRun)

theorem complete_call {bound : Nat} (tag : α) {callee : Expr α} {args : List (Expr α)}
    (hcallee : Complete bound callee) (hargs : ∀ e ∈ args, Complete bound e) :
    Complete bound (.call tag callee args) := by
  refine .of_reads (Nat.le_of_ble_eq_true rfl) fun n hfits => ?_
  refine hcallee.reads_suffixed hfits.1 (fun _ => rfl) ?_
  intro t ts rest callee' count ht hts hrest hbound hshape
  obtain ⟨tsArgs, last, rfl, hargKinds, hlast⟩ := List.map_eq_append_iff.mp hts
  obtain ⟨close, tail, rfl, hclose, htail⟩ := List.map_eq_cons_iff.mp hlast
  cases List.map_eq_nil_iff.mp htail
  rw [List.append_assoc, List.singleton_append] at hbound ⊢
  obtain ⟨args', hargsShape, hrun⟩ := callArgs_run hargs hfits.2 hargKinds hclose hrest hbound
  refine ⟨.call t.line callee' args', ?_, ?_⟩
  · simp only [shapeOf, Expr.map, mapAll_eq] at hshape hargsShape ⊢
    rw [hshape, hargsShape]
  · refine (bind_run (current_cons t _)).trans ?_
    rw [ht]
    exact (bind_run (advance_cons t (by simp))).trans (bind_run hrun)

/-! ### Every expression -/

mutual

/-- Every expression is read back from its tokens. -/
theorem complete (bound : Nat) : ∀ e : Expr α, Complete bound e
  | .name tag id => complete_name tag id
  | .constant tag value => complete_constant tag value
  | .list tag items => complete_list tag (complete_all bound items)
  | .comprehension tag kind element var source cond =>
    complete_comprehension tag kind var (complete bound element) (complete bound source)
      (complete_cond bound cond)
  | .binary tag op left right => complete_binary tag op (complete bound left) (complete bound right)
  | .unary tag op operand => complete_unary tag op (complete bound operand)
  | .logic tag op left right => complete_logic tag op (complete bound left) (complete bound right)
  | .compare tag op left right => complete_compare tag op (complete bound left) (complete bound right)
  | .call tag callee args => complete_call tag (complete bound callee) (complete_all bound args)
  | .attribute tag value attr => complete_attribute tag attr (complete bound value)
  | .subscript tag value index => complete_subscript tag (complete bound value) (complete bound index)

theorem complete_all (bound : Nat) : ∀ (items : List (Expr α)), ∀ e ∈ items, Complete bound e
  | item :: rest, e, he => by
    cases he with
    | head => exact complete bound item
    | tail _ he => exact complete_all bound rest e he

theorem complete_cond (bound : Nat) : ∀ (cond : Option (Expr α)) (e : Expr α), cond = some e →
    Complete bound e
  | some e, _, rfl => complete bound e

end

end ProgramBreeding.Source

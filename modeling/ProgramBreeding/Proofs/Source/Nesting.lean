import ProgramBreeding.Proofs.Source.Parametric
import ProgramBreeding.Proofs.Source.Printed

/-!
# Parsed programs can be written down

What the parser returns was nested no deeper than its levels allowed, so the tree can be
written down with the same number of levels.

## Main definitions

* `TokenKind.IsPlain` — the tokens that the scanner finds.
* `Parser.Sound` — the trees that a parser returns on plain tokens have a property.

## Design notes

The rule for strength `x` over the parsers of level `n` returns expressions that can
stand in a place asking for `x` with `n` levels.  A loop over operators keeps this for
what has been read so far, because its left operand asks for no more than the rule.
-/

namespace ProgramBreeding.Source

/-- Tokens as the scanner finds them: names are identifiers, and numbers have no sign. -/
def TokenKind.IsPlain : TokenKind → Prop
  | .name id => IsIdentifier id
  | .int value => IsPlainLiteral (.int value)
  | .float value => IsPlainLiteral (.float value)
  | _ => True

namespace Parser

variable {β γ : Type}

/-- On plain tokens the parser leaves plain tokens and returns results with a property. -/
def Sound (p : Parser β) (P : β → Prop) : Prop :=
  ∀ ts, (∀ t ∈ ts, t.kind.IsPlain) → ∀ b rest, p ts = .ok (b, rest) →
    P b ∧ ∀ t ∈ rest, t.kind.IsPlain

theorem Sound.bind {p : Parser β} {f : β → Parser γ} {P : β → Prop} {Q : γ → Prop}
    (hp : Sound p P) (hf : ∀ b, P b → Sound (f b) Q) : Sound (p >>= f) Q :=
  Yields.bind hp hf

theorem Sound.pure {P : β → Prop} {b : β} (hb : P b) : Sound (pure b : Parser β) P :=
  Yields.pure hb

theorem Sound.map {p : Parser β} {f : β → γ} {P : β → Prop} {Q : γ → Prop} (hp : Sound p P)
    (hf : ∀ b, P b → Q (f b)) : Sound (f <$> p) Q := by
  rw [map_eq_pure_bind]
  exact hp.bind fun b hb => .pure (hf b hb)

theorem Sound.mono {p : Parser β} {P Q : β → Prop} (hPQ : ∀ b, P b → Q b) (hp : Sound p P) :
    Sound p Q := Yields.mono hp hPQ

theorem Sound.ite {p q : Parser β} {P : β → Prop} {c : Prop} [Decidable c] (hp : Sound p P)
    (hq : Sound q P) : Sound (if c then p else q) P :=
  Yields.ite hp hq

theorem Sound.failAt {P : β → Prop} (t : Token) (cause : Cause) :
    Sound (failAt t cause : Parser β) P := nofun

theorem sound_current : Sound current (fun t => t.kind.IsPlain) := by
  intro ts hts t rest h
  cases ts with
  | nil => cases h; exact ⟨trivial, hts⟩
  | cons t' ts => cases h; exact ⟨hts t List.mem_cons_self, hts⟩

theorem Sound.fail {P : β → Prop} (cause : Cause) : Sound (fail cause : Parser β) P :=
  sound_current.bind fun t _ => .failAt t cause

theorem Sound.failExpecting {P : β → Prop} (wanted : Wanted) :
    Sound (failExpecting wanted : Parser β) P :=
  sound_current.bind fun t _ => .failAt t _

/-- Every rule of the grammar leaves plain tokens. -/
theorem plain : Congruence Eq fun p _ => Sound p fun _ => True :=
  yields_congruence fun h => (List.forall_mem_cons.mp h).2

theorem sound_get : Sound (get : Parser (List Token)) (fun _ => True) := by
  intro ts hts b rest h
  cases h
  exact ⟨trivial, hts⟩

theorem sound_name : Sound name IsIdentifier := by
  refine sound_current.bind fun t ht => ?_
  split
  · rename_i id hkind
    rw [hkind] at ht
    exact plain.advance.bind fun _ _ => .pure ht
  · exact .failExpecting _

/-- A loop over operators keeps a property that the join of two operands has. -/
theorem sound_chainAfter {ω : Type} {op? : TokenKind → Option ω} {operand : Parser (Expr Line)}
    {join : Line → ω → Expr Line → Expr Line → Expr Line} {P Q : Expr Line → Prop}
    (hoperand : Sound operand Q)
    (hjoin : ∀ (t : Token) op left right, op? t.kind = some op → P left → Q right →
      P (join t.line op left right)) :
    ∀ (count : Nat) (left : Expr Line), P left →
      Sound (chainAfter op? operand join count left) P
  | 0, _, hleft => .pure hleft
  | count + 1, left, hleft => by
    refine sound_current.bind fun t _ => ?_
    split
    · exact .pure hleft
    · rename_i op hop
      exact plain.advance.bind fun _ _ => hoperand.bind fun right hright =>
        sound_chainAfter hoperand hjoin count _ (hjoin t op left right hop hleft hright)

theorem sound_chain {ω : Type} {op? : TokenKind → Option ω} {operand : Parser (Expr Line)}
    {join : Line → ω → Expr Line → Expr Line → Expr Line} {P Q : Expr Line → Prop} (bound : Nat)
    (hoperand : Sound operand Q) (hfirst : ∀ e, Q e → P e)
    (hjoin : ∀ (t : Token) op left right, op? t.kind = some op → P left → Q right →
      P (join t.line op left right)) :
    Sound (chain bound op? operand join) P :=
  hoperand.bind fun first h => sound_chainAfter hoperand hjoin bound first (hfirst first h)

end Parser

open ProgramBreeding.Source.Parser

/-! ### Operations -/

theorem fitsIn_binary {op : BinaryOp} (hop : op ≠ .pow) {n : Nat} (t : Token)
    {left right : Expr Line} (hleft : left.FitsIn (Strength.ofBinary op) n)
    (hright : right.FitsIn (Strength.ofBinary op + 1) n) :
    (Expr.binary t.line op left right).FitsIn (Strength.ofBinary op) n := by
  refine Expr.Fits.bare (Nat.le_refl _) ⟨?_, ?_⟩
  · cases op <;> first | exact hleft | exact absurd rfl hop
  · rw [if_neg hop]
    cases op <;> first | exact hright | exact absurd rfl hop

theorem fitsIn_logic {op : LogicOp} {n : Nat} (t : Token) {left right : Expr Line}
    (hleft : left.FitsIn (Strength.ofLogic op) n)
    (hright : right.FitsIn (Strength.ofLogic op + 1) n) :
    (Expr.logic t.line op left right).FitsIn (Strength.ofLogic op) n :=
  Expr.Fits.bare (Nat.le_refl _) ⟨hleft, hright⟩

theorem ofLiteral_eq_atom {value : Literal} (h : IsPlainLiteral value) :
    Strength.ofLiteral value = Strength.atom := by
  cases value with
  | int value =>
    refine if_neg fun hneg => ?_
    have hlt := Int64.lt_iff_toInt_lt.mp hneg
    exact absurd h (Int.not_le.mpr hlt)
  | float value => exact if_neg (by rw [h.2]; decide)
  | _ => rfl

theorem sumOp?_strength {kind : TokenKind} {op : BinaryOp} (h : sumOp? kind = some op) :
    op ≠ .pow ∧ Strength.ofBinary op = Strength.sum := by
  unfold sumOp? at h
  split at h <;> cases h <;> exact ⟨nofun, rfl⟩

theorem productOp?_strength {kind : TokenKind} {op : BinaryOp} (h : productOp? kind = some op) :
    op ≠ .pow ∧ Strength.ofBinary op = Strength.product := by
  unfold productOp? at h
  split at h <;> cases h <;> exact ⟨nofun, rfl⟩

theorem signOp?_strength {kind : TokenKind} {op : UnaryOp} (h : signOp? kind = some op) :
    Strength.ofUnary op = Strength.sign := by
  unfold signOp? at h
  split at h <;> cases h <;> rfl

theorem orOp?_eq {kind : TokenKind} {op : LogicOp} (h : orOp? kind = some op) : op = .or := by
  unfold orOp? at h
  split at h <;> cases h
  rfl

theorem andOp?_eq {kind : TokenKind} {op : LogicOp} (h : andOp? kind = some op) : op = .and := by
  unfold andOp? at h
  split at h <;> cases h
  rfl

theorem augmentedOp?_ne_pow {kind : TokenKind} {op : BinaryOp} (h : augmentedOp? kind = some op) :
    op ≠ .pow := by
  unfold augmentedOp? at h
  split at h <;> cases h <;> nofun

namespace Level

/-- The parsers of a level return trees that need fewer levels. -/
structure IsSound (n : Nat) (inner : Level) : Prop where
  orExpr : Sound inner.orExpr (·.FitsStmt n)
  notExpr : Sound inner.notExpr (fun e => 0 < n ∧ e.FitsIn Strength.not (n - 1))
  factor : Sound inner.factor (fun e => 0 < n ∧ e.FitsIn Strength.sign (n - 1))
  block : Sound inner.block (fun body => 0 < n ∧ Block.Fits (n - 1) body)

/-- What a comprehension needs: one in brackets of its own needs a level more than one
that is left without. -/
def ClausesFit (n : Nat) : ComprehensionKind → Expr Line → Prop
  | .list, e => e.FitsIn Strength.atom n
  | .generator, e => 0 < n ∧ e.Fits (n - 1) ∧ isSoleGenerator [e] = true

theorem sound_paramsAfter : ∀ (count : Nat) (params : List String),
    (∀ param ∈ params, IsIdentifier param) → params.Nodup →
      Sound (paramsAfter count params) (fun params =>
        (∀ param ∈ params, IsIdentifier param) ∧ params.Nodup)
  | 0, params, hparams, hnodup =>
    (plain.expect _).bind fun _ _ => .pure (reversed hparams hnodup)
  | count + 1, params, hparams, hnodup => by
    refine (plain.eat? _).bind fun _ _ => .ite (.pure (reversed hparams hnodup)) ?_
    refine sound_name.bind fun param hparam => ?_
    extract_lets finish check
    have hmore : ∀ param' ∈ param :: params, IsIdentifier param' :=
      List.forall_mem_cons.mpr ⟨hparam, hparams⟩
    have hcheck : (param :: params).Nodup → Sound (check ()) (fun params =>
        (∀ param ∈ params, IsIdentifier param) ∧ params.Nodup) := by
      intro hdistinct
      refine (plain.at? _).bind fun _ _ => (plain.at? _).bind fun _ _ =>
        .ite ((Sound.fail (P := fun _ => False) _).bind fun _ h => h.elim) ?_
      exact (plain.eat? _).bind fun _ _ => .ite (sound_paramsAfter count _ hmore hdistinct)
        ((plain.expect _).bind fun _ _ => .pure (reversed hmore hdistinct))
    split
    · exact (Sound.fail (P := fun _ => False) _).bind fun _ h => h.elim
    · rename_i hnew
      exact hcheck (List.nodup_cons.mpr ⟨by simpa using hnew, hnodup⟩)
where
  reversed {params : List String} (hparams : ∀ param ∈ params, IsIdentifier param)
      (hnodup : params.Nodup) :
      (∀ param ∈ params.reverse, IsIdentifier param) ∧ params.reverse.Nodup :=
    ⟨fun param h => hparams param (List.mem_reverse.mp h),
      List.pairwise_reverse.mpr (hnodup.imp Ne.symm)⟩

theorem sound_checkTarget (target : Expr Line) :
    Sound (checkTarget target) (fun _ => target.isAssignable = true) := by
  unfold checkTarget
  split
  · rename_i h
    exact .pure h
  · exact fun _ _ _ _ h => nomatch h

section Rules

variable {n : Nat} {inner : Level} (hinner : inner.IsSound n)
include hinner

/-! ### Expressions -/

theorem sound_clauses (kind : ComprehensionKind) {element : Expr Line}
    (helement : element.FitsStmt n) : Sound (inner.clauses kind element) (ClausesFit n kind) := by
  refine plain.lineTag.bind fun line _ => (plain.expect _).bind fun _ _ => sound_name.bind fun var hvar =>
    (plain.refuse _ _).bind fun _ _ => (plain.expect _).bind fun _ _ =>
    hinner.orExpr.bind fun source hsource => (plain.eat? _).bind fun conditional _ => ?_
  extract_lets finish
  have hfinish : ∀ cond, Expr.FitCond (n - 1) cond → Sound (finish cond) (ClausesFit n kind) := by
    intro cond hcond
    refine (plain.at? _).bind fun _ _ => (plain.at? _).bind fun _ _ =>
      .ite ((Sound.fail (P := fun _ => False) _).bind fun _ h => h.elim) (.pure ?_)
    cases kind with
    | list =>
      exact Expr.Fits.bare (Nat.le_refl _) ⟨helement.1, hvar, helement.2, hsource.2, hcond⟩
    | generator => exact ⟨helement.1, ⟨hvar, helement.2, hsource.2, hcond⟩, rfl⟩
  refine .ite ?_ (hfinish none trivial)
  exact (hinner.orExpr.map (f := some) (Q := Expr.FitCond (n - 1)) fun _ h => h.2).bind hfinish

theorem sound_itemsAfter (kind : ComprehensionKind) (close : Symbol) {check : Parser Unit}
    (hcheck : Sound check (fun _ => True)) :
    ∀ (count : Nat) (items : List (Expr Line)), (∀ e ∈ items, e.FitsStmt n) →
      Sound (inner.itemsAfter kind close check count items) (fun found => match found with
        | .inl e => ClausesFit n kind e
        | .inr items => ∀ e ∈ items, e.FitsStmt n)
  | 0, items, hitems =>
    (plain.expect _).bind fun _ _ => .pure fun e he => hitems e (List.mem_reverse.mp he)
  | count + 1, items, hitems => by
    refine (plain.eat? _).bind fun _ _ =>
      .ite (.pure fun e he => hitems e (List.mem_reverse.mp he)) ?_
    refine hinner.orExpr.bind fun item hitem => (plain.at? _).bind fun _ _ => .ite ?_ ?_
    · exact (sound_clauses hinner kind hitem).bind fun found hfound =>
        (plain.expect _).bind fun _ _ => .pure hfound
    · have hmore : ∀ e ∈ item :: items, e.FitsStmt n := List.forall_mem_cons.mpr ⟨hitem, hitems⟩
      exact hcheck.bind fun _ _ => (plain.eat? _).bind fun _ _ =>
        .ite (sound_itemsAfter kind close hcheck count _ hmore)
          ((plain.expect _).bind fun _ _ => .pure fun e he => hmore e (List.mem_reverse.mp he))

theorem sound_callArgs (bound : Nat) : Sound (inner.callArgs bound) (fun args => args ≠ [] →
    0 < n ∧ Expr.FitAll (n - 1)
      (if isSoleGenerator args then Strength.generator else Strength.or) args) := by
  refine (sound_itemsAfter hinner _ _ (plain.refuse _ _) bound [] nofun).bind fun found hfound => ?_
  cases found with
  | inl e =>
    obtain ⟨hn, hfits, hsole⟩ := hfound
    refine .pure fun _ => ⟨hn, ?_⟩
    rw [if_pos hsole]
    exact ⟨hfits.bare (Nat.zero_le _), trivial⟩
  | inr args =>
    refine .pure fun hargs => ?_
    obtain ⟨e, he⟩ := List.exists_mem_of_ne_nil args hargs
    refine ⟨(hfound e he).1, Expr.fitAll_iff.mpr fun e he => (hfound e he).2.weaken ?_⟩
    split
    · exact Nat.zero_le _
    · exact Nat.le_refl _

theorem sound_listDisplay (bound : Nat) (line : Line) :
    Sound (inner.listDisplay bound line) (·.FitsIn Strength.atom n) := by
  refine (sound_itemsAfter hinner _ _ (.pure trivial) bound [] nofun).bind fun found hfound => ?_
  cases found with
  | inl e => exact .pure hfound
  | inr items =>
    refine .pure (Expr.Fits.bare (Nat.le_refl _) fun hitems => ?_)
    obtain ⟨e, he⟩ := List.exists_mem_of_ne_nil items hitems
    exact ⟨(hfound e he).1, Expr.fitAll_iff.mpr fun e he => (hfound e he).2⟩

theorem sound_parenthesized : Sound inner.parenthesized (·.FitsIn Strength.atom n) := by
  refine (plain.refuse _ _).bind fun _ _ => hinner.orExpr.bind fun first hfirst =>
    (plain.at? _).bind fun _ _ => ?_
  extract_lets finish
  have hfinish : ∀ e, 0 < n ∧ e.Fits (n - 1) → Sound (finish e) (·.FitsIn Strength.atom n) :=
    fun e he => (plain.refuse _ _).bind fun _ _ => (plain.expect _).bind fun _ _ =>
      .pure (he.2.enclosed he.1)
  refine .ite ?_ (hfinish first ⟨hfirst.1, hfirst.2.fits⟩)
  exact (sound_clauses hinner .generator hfirst).bind fun e he => hfinish e ⟨he.1, he.2.1⟩

theorem sound_atom (bound : Nat) : Sound (inner.atom bound) (·.FitsIn Strength.atom n) := by
  refine sound_current.bind fun t ht => plain.advance.bind fun _ _ => ?_
  split
  · rename_i id hkind
    rw [hkind] at ht
    exact .pure (Expr.Fits.bare (Nat.le_refl _) ht)
  · rename_i value hkind
    rw [hkind] at ht
    have hplain : IsPlainLiteral (.int value) := ht
    exact .pure (Expr.Fits.bare (Nat.le_of_eq (ofLiteral_eq_atom hplain).symm) hplain)
  · rename_i value hkind
    rw [hkind] at ht
    have hplain : IsPlainLiteral (.float value) := ht
    exact .pure (Expr.Fits.bare (Nat.le_of_eq (ofLiteral_eq_atom hplain).symm) hplain)
  · exact (plain.stringsAfter bound _).bind fun _ _ =>
      .pure (Expr.Fits.bare (Nat.le_refl _) trivial)
  · exact .pure (Expr.Fits.bare (Nat.le_refl _) trivial)
  · exact .pure (Expr.Fits.bare (Nat.le_refl _) trivial)
  · exact .pure (Expr.Fits.bare (Nat.le_refl _) trivial)
  · exact sound_parenthesized hinner
  · exact sound_listDisplay hinner bound _
  · exact .failAt _ _
  · exact .failAt _ _
  · exact .failAt _ _

theorem sound_subscriptIndex : Sound inner.subscriptIndex (·.FitsStmt n) :=
  (plain.refuse _ _).bind fun _ _ => hinner.orExpr.bind fun _ hindex =>
    (plain.refuse _ _).bind fun _ _ => (plain.expect _).bind fun _ _ => .pure hindex

theorem sound_postfixAfter (bound : Nat) : ∀ (count : Nat) (value : Expr Line),
    value.FitsIn Strength.atom n →
      Sound (inner.postfixAfter bound count value) (·.FitsIn Strength.atom n)
  | 0, _, hvalue => .pure hvalue
  | count + 1, value, hvalue => by
    refine sound_current.bind fun t _ => ?_
    split
    · exact plain.advance.bind fun _ _ => (sound_callArgs hinner bound).bind fun args hargs =>
        sound_postfixAfter bound count _ (Expr.Fits.bare (Nat.le_refl _) ⟨hvalue, hargs⟩)
    · exact plain.advance.bind fun _ _ => (sound_subscriptIndex hinner).bind fun index hindex =>
        sound_postfixAfter bound count _ (Expr.Fits.bare (Nat.le_refl _) ⟨hvalue, hindex⟩)
    · exact plain.advance.bind fun _ _ => sound_name.bind fun attr hattr =>
        sound_postfixAfter bound count _ (Expr.Fits.bare (Nat.le_refl _) ⟨hvalue, hattr⟩)
    · exact .pure hvalue

theorem sound_postfixed (bound : Nat) :
    Sound (inner.postfixed bound) (·.FitsIn Strength.atom n) :=
  (sound_atom hinner bound).bind fun value hvalue => sound_postfixAfter hinner bound bound value hvalue

theorem sound_power (bound : Nat) : Sound (inner.power bound) (·.FitsIn Strength.power n) := by
  refine (sound_postfixed hinner bound).bind fun base hbase => sound_current.bind fun t _ =>
    .ite ?_ (.pure (hbase.weaken (by decide)))
  exact plain.advance.bind fun _ _ => hinner.factor.bind fun exponent hexponent =>
    .pure (Expr.Fits.bare (Nat.le_refl _) ⟨hbase, hexponent⟩)

theorem sound_factorRule (bound : Nat) :
    Sound (inner.factorRule bound) (·.FitsIn Strength.sign n) := by
  refine sound_current.bind fun t _ => ?_
  split
  · rename_i op hop
    have hstrength := signOp?_strength hop
    refine plain.advance.bind fun _ _ => hinner.factor.bind fun operand hoperand => .pure ?_
    rw [← hstrength] at hoperand ⊢
    exact Expr.Fits.bare (Nat.le_refl _) hoperand
  · exact (sound_power hinner bound).mono fun e he => he.weaken (by decide)

theorem sound_term (bound : Nat) : Sound (inner.term bound) (·.FitsIn Strength.product n) := by
  refine sound_chain bound (sound_factorRule hinner bound) (fun e he => he.weaken (by decide)) ?_
  intro t op left right hop hleft hright
  obtain ⟨hpow, hstrength⟩ := productOp?_strength hop
  rw [← hstrength] at hleft ⊢
  exact fitsIn_binary hpow t hleft (by rw [hstrength]; exact hright)

theorem sound_arith (bound : Nat) : Sound (inner.arith bound) (·.FitsIn Strength.sum n) := by
  refine sound_chain bound (sound_term hinner bound) (fun e he => he.weaken (by decide)) ?_
  intro t op left right hop hleft hright
  obtain ⟨hpow, hstrength⟩ := sumOp?_strength hop
  rw [← hstrength] at hleft ⊢
  exact fitsIn_binary hpow t hleft (by rw [hstrength]; exact hright)

theorem sound_comparison (bound : Nat) :
    Sound (inner.comparison bound) (·.FitsIn Strength.compare n) := by
  refine (sound_arith hinner bound).bind fun left hleft => sound_get.bind fun _ _ => ?_
  split
  · exact .pure (hleft.weaken (by decide))
  rename_i op width _
  refine plain.lineTag.bind fun line _ => plain.advance.bind fun _ _ => ?_
  extract_lets operand
  have hoperand : Sound (operand ()) (·.FitsIn Strength.compare n) := by
    refine (sound_arith hinner bound).bind fun right hright => sound_get.bind fun _ _ =>
      .ite ((Sound.fail (P := fun _ => False) _).bind fun _ h => h.elim) ?_
    exact (plain.refuse _ _).bind fun _ _ =>
      .pure (Expr.Fits.bare (Nat.le_refl _) ⟨hleft, hright⟩)
  exact .ite (plain.advance.bind fun _ _ => hoperand) hoperand

theorem sound_notRule (bound : Nat) : Sound (inner.notRule bound) (·.FitsIn Strength.not n) := by
  refine sound_current.bind fun t _ =>
    .ite ?_ ((sound_comparison hinner bound).mono fun e he => he.weaken (by decide))
  exact plain.advance.bind fun _ _ => hinner.notExpr.bind fun operand hoperand =>
    .pure (Expr.Fits.bare (Nat.le_refl _) hoperand)

theorem sound_andRule (bound : Nat) : Sound (inner.andRule bound) (·.FitsIn Strength.and n) := by
  refine sound_chain bound (sound_notRule hinner bound) (fun e he => he.weaken (by decide)) ?_
  intro t op left right hop hleft hright
  cases andOp?_eq hop
  exact fitsIn_logic t hleft hright

theorem sound_orRule (bound : Nat) : Sound (inner.orRule bound) (·.FitsIn Strength.or n) := by
  refine sound_chain bound (sound_andRule hinner bound) (fun e he => he.weaken (by decide)) ?_
  intro t op left right hop hleft hright
  cases orOp?_eq hop
  exact fitsIn_logic t hleft hright

/-! ### Statements -/

theorem sound_returnValue :
    Sound inner.returnValue (fun value => ∀ e, value = some e → e.FitsStmt n) := by
  refine plain.atNewline.bind fun _ _ => plain.atEnd.bind fun _ _ => (plain.at? _).bind fun _ _ =>
    .ite (.pure nofun) (hinner.orExpr.bind fun value hvalue => .pure fun e he => ?_)
  cases he
  exact hvalue

theorem sound_expressionStatement (line : Line) :
    Sound (inner.expressionStatement line) (·.Fits n) := by
  refine hinner.orExpr.bind fun first hfirst => (plain.refuse _ _).bind fun _ _ =>
    sound_current.bind fun t _ => .ite ?_ ?_
  · exact plain.advance.bind fun _ _ => (sound_checkTarget first).bind fun _ htarget =>
      hinner.orExpr.bind fun value hvalue => (plain.refuse _ _).bind fun _ _ =>
      .pure ⟨htarget, hfirst, hvalue⟩
  · split
    · rename_i op hop
      exact plain.advance.bind fun _ _ => (sound_checkTarget first).bind fun _ htarget =>
        hinner.orExpr.bind fun value hvalue =>
        .pure ⟨htarget, augmentedOp?_ne_pow hop, hfirst, hvalue⟩
    · exact .pure hfirst

theorem sound_simpleStatement : Sound inner.simpleStatement (·.Fits n) := by
  refine sound_current.bind fun t _ => ?_
  split
  · exact plain.advance.bind fun _ _ => .pure trivial
  · exact plain.advance.bind fun _ _ => .pure trivial
  · exact plain.advance.bind fun _ _ => .pure trivial
  · exact plain.advance.bind fun _ _ => (sound_returnValue hinner).bind fun value hvalue =>
      .pure hvalue
  · exact sound_expressionStatement hinner _

theorem sound_lineAfter : ∀ (count : Nat) (found : List (Stmt Line)), (∀ s ∈ found, s.Fits n) →
    Sound (inner.lineAfter count found) (fun found => ∀ s ∈ found, s.Fits n)
  | 0, found, hfound => .pure fun s hs => hfound s (List.mem_reverse.mp hs)
  | count + 1, found, hfound => by
    refine (sound_simpleStatement hinner).bind fun s hs => (plain.eat? _).bind fun _ _ =>
      plain.atNewline.bind fun _ _ => plain.atEnd.bind fun _ _ => ?_
    have hmore : ∀ s' ∈ s :: found, s'.Fits n := List.forall_mem_cons.mpr ⟨hs, hfound⟩
    exact .ite (.pure fun s' hs' => hmore s' (List.mem_reverse.mp hs'))
      (sound_lineAfter count _ hmore)

theorem sound_simpleStatements (bound : Nat) :
    Sound (inner.simpleStatements bound) (fun found => ∀ s ∈ found, s.Fits n) := by
  refine (sound_lineAfter hinner bound [] nofun).bind fun found hfound =>
    plain.eatNewline?.bind fun _ _ => plain.atEnd.bind fun _ _ => ?_
  exact .ite ((Sound.failExpecting (P := fun _ => False) _).bind fun _ h => h.elim) (.pure hfound)

theorem sound_suite : Sound inner.suite (fun body => 0 < n ∧ Block.Fits (n - 1) body) :=
  (plain.expect _).bind fun _ _ => hinner.block

theorem sound_functionDef (bound : Nat) (line : Line) :
    Sound (inner.functionDef bound line) (·.Fits n) :=
  sound_name.bind fun _ hname => (plain.expect _).bind fun _ _ =>
    (sound_paramsAfter bound [] nofun .nil).bind fun _ hparams =>
    (sound_suite hinner).bind fun _ hbody => .pure ⟨hname, hparams.1, hparams.2, hbody⟩

theorem sound_alternatives : ∀ count : Nat, Sound (inner.alternatives count)
    (fun orelse => Block.Fits (if isChained orelse then n else n - 1) orelse)
  | 0 => .pure trivial
  | count + 1 => by
    refine sound_current.bind fun t _ => ?_
    split
    · refine plain.advance.bind fun _ _ => hinner.orExpr.bind fun test htest =>
        (sound_suite hinner).bind fun body hbody =>
        (sound_alternatives count).bind fun orelse horelse => .pure ?_
      exact ⟨⟨htest, hbody.2, horelse⟩, trivial⟩
    · exact plain.advance.bind fun _ _ => (sound_suite hinner).mono fun body hbody =>
        hbody.2.mono (by split <;> omega)
    · exact .pure trivial

theorem sound_conditional (bound : Nat) (line : Line) :
    Sound (inner.conditional bound line) (·.Fits n) :=
  hinner.orExpr.bind fun _ htest => (sound_suite hinner).bind fun _ hbody =>
    (sound_alternatives hinner bound).bind fun _ horelse => .pure ⟨htest, hbody.2, horelse⟩

theorem sound_whileStatement (line : Line) : Sound (inner.whileStatement line) (·.Fits n) :=
  hinner.orExpr.bind fun _ htest => (sound_suite hinner).bind fun _ hbody =>
    (plain.refuse _ _).bind fun _ _ => .pure ⟨htest, hbody.2⟩

theorem sound_forStatement (line : Line) : Sound (inner.forStatement line) (·.Fits n) :=
  sound_name.bind fun _ hvar => (plain.refuse _ _).bind fun _ _ => (plain.expect _).bind fun _ _ =>
    hinner.orExpr.bind fun _ hsource => (sound_suite hinner).bind fun _ hbody =>
    (plain.refuse _ _).bind fun _ _ => .pure ⟨hvar, hsource, hbody.2⟩

theorem sound_statement (bound : Nat) :
    Sound (inner.statement bound) (fun found => ∀ s ∈ found, s.Fits n) := by
  have hone : ∀ {p : Parser (Stmt Line)}, Sound p (·.Fits n) →
      Sound (do return [← p]) (fun found => ∀ s ∈ found, s.Fits n) :=
    fun hp => hp.bind fun s hs => .pure (by simpa using hs)
  refine sound_current.bind fun t _ => ?_
  split
  · exact plain.advance.bind fun _ _ => hone (sound_functionDef hinner bound _)
  · exact plain.advance.bind fun _ _ => hone (sound_conditional hinner bound _)
  · exact plain.advance.bind fun _ _ => hone (sound_whileStatement hinner _)
  · exact plain.advance.bind fun _ _ => hone (sound_forStatement hinner _)
  · exact .ite (.fail _) (sound_simpleStatements hinner bound)
  · exact .fail _
  · exact sound_simpleStatements hinner bound

theorem sound_blockAfter (bound : Nat) : ∀ (count : Nat) (found : List (Stmt Line)),
    (∀ s ∈ found, s.Fits n) →
      Sound (inner.blockAfter bound count found) (fun body => ∀ s ∈ body, s.Fits n)
  | 0, found, hfound => .pure fun s hs => hfound s (List.mem_reverse.mp hs)
  | count + 1, found, hfound => by
    refine sound_current.bind fun t _ => ?_
    split
    · exact plain.advance.bind fun _ _ => .pure fun s hs => hfound s (List.mem_reverse.mp hs)
    · exact .pure fun s hs => hfound s (List.mem_reverse.mp hs)
    · refine (sound_statement hinner bound).bind fun ss hss => sound_blockAfter bound count _ ?_
      intro s hs
      rcases List.mem_append.mp hs with hs | hs
      · exact hss s (List.mem_reverse.mp hs)
      · exact hfound s hs

theorem sound_blockRule (bound : Nat) :
    Sound (inner.blockRule bound) (fun body => ∀ s ∈ body, s.Fits n) := by
  refine plain.eatNewline?.bind fun _ _ => .ite ?_ (sound_simpleStatements hinner bound)
  refine sound_current.bind fun t _ => ?_
  split
  · exact plain.advance.bind fun _ _ => sound_blockAfter hinner bound bound [] nofun
  · exact .failExpecting _

end Rules

/-! ### All levels -/

theorem isSound_exhausted : exhausted.IsSound 0 :=
  ⟨.fail _, .fail _, .fail _, .fail _⟩

theorem IsSound.outward {n : Nat} {inner : Level} (hinner : inner.IsSound n) (bound : Nat) :
    (inner.outward bound).IsSound (n + 1) where
  orExpr := (sound_orRule hinner bound).mono fun _ he => ⟨Nat.succ_pos n, he⟩
  notExpr := (sound_notRule hinner bound).mono fun _ he => ⟨Nat.succ_pos n, he⟩
  factor := (sound_factorRule hinner bound).mono fun _ he => ⟨Nat.succ_pos n, he⟩
  block := (sound_blockRule hinner bound).mono fun _ h => ⟨Nat.succ_pos n, Block.fits_iff.mpr h⟩

end Level

theorem isSound_level (bound : Nat) : ∀ n, (level bound n).IsSound n
  | 0 => Level.isSound_exhausted
  | n + 1 => (isSound_level bound n).outward bound

theorem sound_programAfter {n : Nat} {inner : Level} (hinner : inner.IsSound n) (bound : Nat) :
    ∀ (count : Nat) (found : List (Stmt Line)), (∀ s ∈ found, s.Fits n) →
      Sound (programAfter bound inner count found) (fun body => ∀ s ∈ body, s.Fits n)
  | 0, found, hfound => .pure fun s hs => hfound s (List.mem_reverse.mp hs)
  | count + 1, found, hfound => by
    refine sound_current.bind fun t _ => ?_
    split
    · exact .pure fun s hs => hfound s (List.mem_reverse.mp hs)
    · exact plain.advance.bind fun _ _ => sound_programAfter hinner bound count found hfound
    · refine (Level.sound_statement hinner bound).bind fun ss hss =>
        sound_programAfter hinner bound count _ ?_
      intro s hs
      rcases List.mem_append.mp hs with hs | hs
      · exact hss s (List.mem_reverse.mp hs)
      · exact hfound s hs

/-- A program read from plain tokens can be written down within the nesting limit. -/
theorem fits_of_parseTokens {ts : List Token} (hts : ∀ t ∈ ts, t.kind.IsPlain) {body : Block Line}
    (h : parseTokens ts = .ok body) : Block.Fits maxNesting body :=
  Block.fits_iff.mpr <| parseTokens_yields (I := fun ts => ∀ t ∈ ts, t.kind.IsPlain)
    (sound_programAfter (isSound_level ts.length maxNesting) ts.length ts.length [] nofun) hts h

end ProgramBreeding.Source

import Mathlib.Order.Filter.AtTopBot.Basic
import ProgramBreeding.Proofs.Source.Limits
import ProgramBreeding.Tree.Edit

/-!
# Programs that can be written down

Whether a program can be written down, the nesting limit apart, is a matter of its nodes
one by one: of the names, constants and targets that each of them has.

## Main definitions

* `Node.IsWritable`, `Block.IsWritable` — nodes, and programs of nodes, that can be written
  down.
* `Expr.signed`, `Block.signed` — the same program with a sign before every negative
  integer, as it is read back.
* `Block.IsWritable.exists_fits` — some number of levels is enough for such a program.
* `Block.IsWritable.readsAs` — its text is read back, or it is nested too deep.
-/

namespace ProgramBreeding

open Source Filter

variable {α : Type}

/-- Constants that can be written down.  A negative integer is written with a sign, which
the least one has no digits for. -/
def Source.IsWritableLiteral : Literal → Prop
  | .int value => value ≠ Int64.minValue
  | value => IsPlainLiteral value

/-- Expressions whose own names and constants can be written down. -/
def Expr.IsWritable : Expr α → Prop
  | .name _ id => IsIdentifier id
  | .constant _ value => IsWritableLiteral value
  | .comprehension _ _ _ var _ _ => IsIdentifier var
  | .attribute _ _ attr => IsIdentifier attr
  | _ => True

/-- Statements whose own names, targets and operators can be written down. -/
def Stmt.IsWritable : Stmt α → Prop
  | .functionDef _ name params _ =>
    IsIdentifier name ∧ (∀ param ∈ params, IsIdentifier param) ∧ params.Nodup
  | .assign _ target _ => target.isAssignable = true
  | .augAssign _ target op _ => target.isAssignable = true ∧ op ≠ .pow
  | .forLoop _ var _ _ => IsIdentifier var
  | _ => True

/-- Nodes whose own data can be written down. -/
def Node.IsWritable : Node α → Prop
  | .stmt s => s.IsWritable
  | .expr e => e.IsWritable

/-- Programs all of whose nodes can be written down. -/
def Block.IsWritable (body : Block α) : Prop := ∀ node ∈ Block.nodes body, node.IsWritable

instance : DecidablePred IsWritableLiteral
  | .int value => inferInstanceAs (Decidable (value ≠ Int64.minValue))
  | .float value => inferInstanceAs (Decidable (IsPlainLiteral (.float value)))
  | .none | .bool _ | .str _ => .isTrue trivial

instance : DecidablePred (Expr.IsWritable (α := α))
  | .name _ id | .comprehension _ _ _ id _ _ | .attribute _ _ id => inferInstanceAs (Decidable (IsIdentifier id))
  | .constant _ value => inferInstanceAs (Decidable (IsWritableLiteral value))
  | .list .. | .binary .. | .unary .. | .logic .. | .compare .. | .call .. | .subscript .. => .isTrue trivial

instance : DecidablePred (Stmt.IsWritable (α := α))
  | .functionDef _ name params _ =>
    inferInstanceAs (Decidable (IsIdentifier name ∧ (∀ param ∈ params, IsIdentifier param) ∧ params.Nodup))
  | .assign _ target _ => inferInstanceAs (Decidable (target.isAssignable = true))
  | .augAssign _ target op _ => inferInstanceAs (Decidable (target.isAssignable = true ∧ op ≠ .pow))
  | .forLoop _ var _ _ => inferInstanceAs (Decidable (IsIdentifier var))
  | .ret .. | .whileLoop .. | .ifElse .. | .expr .. | .pass _ | .brk _ | .cont _ => .isTrue trivial

instance : DecidablePred (Node.IsWritable (α := α))
  | .stmt s => inferInstanceAs (Decidable s.IsWritable)
  | .expr e => inferInstanceAs (Decidable e.IsWritable)

/-- A program given in full is shown to be one that can be written down by `decide`. -/
instance (body : Block α) : Decidable body.IsWritable :=
  inferInstanceAs (Decidable (∀ node ∈ Block.nodes body, node.IsWritable))

/-! ### Negative integers -/

/-- A constant as it is read back: a negative integer is the negation of a constant. -/
def Literal.signed (tag : α) : Literal → Expr α
  | .int value =>
    if value < 0 then .unary tag .neg (.constant tag (.int (-value)))
    else .constant tag (.int value)
  | value => .constant tag value

mutual

/-- The same expression with a sign before every negative integer. -/
def Expr.signed : Expr α → Expr α
  | .name t id => .name t id
  | .constant t value => value.signed t
  | .list t items => .list t (Expr.signedAll items)
  | .comprehension t kind element var source cond =>
    .comprehension t kind element.signed var source.signed (Expr.signedCond cond)
  | .binary t op left right => .binary t op left.signed right.signed
  | .unary t op operand => .unary t op operand.signed
  | .logic t op left right => .logic t op left.signed right.signed
  | .compare t op left right => .compare t op left.signed right.signed
  | .call t callee args => .call t callee.signed (Expr.signedAll args)
  | .attribute t value attr => .attribute t value.signed attr
  | .subscript t value index => .subscript t value.signed index.signed

/-- The same expressions with a sign before every negative integer. -/
def Expr.signedAll : List (Expr α) → List (Expr α)
  | [] => []
  | e :: rest => e.signed :: Expr.signedAll rest

/-- The same condition with a sign before every negative integer. -/
def Expr.signedCond : Option (Expr α) → Option (Expr α)
  | none => none
  | some e => some e.signed

end

/-- The same program with a sign before every negative integer. -/
def Block.signed (body : Block Label) : Block Label := Block.mapExprs Expr.signed body

/-- Every integer but the least has an opposite. -/
theorem toInt_neg_of_ne {value : Int64} (h : value ≠ Int64.minValue) :
    (-value).toInt = -value.toInt := by
  have hne : value.toInt ≠ Int64.minValue.toInt := fun heq => h (Int64.toInt_inj.mp heq)
  have hmin : Int64.minValue.toInt = -2 ^ 63 := by decide
  have hge := Int64.le_toInt value
  have hlt := Int64.toInt_lt value
  rw [Int64.toInt_neg]
  apply Int.bmod_eq_of_le_mul_two <;> omega

/-- The opposite of a negative integer is written without its sign. -/
theorem renderLiteral_neg {value : Int64} (hneg : value < 0) (hmin : value ≠ Int64.minValue) :
    "-" ++ renderLiteral (.int (-value)) = renderLiteral (.int value) := by
  obtain ⟨k, hk⟩ := Int.eq_negSucc_of_lt_zero (Int64.lt_iff_toInt_lt.mp hneg)
  have hopposite : (-value).toInt = Int.ofNat (k + 1) := by rw [toInt_neg_of_ne hmin, hk]; rfl
  rw [renderLiteral, renderLiteral, hk, hopposite]
  rfl

theorem Literal.strength_signed (tag : α) (value : Literal) :
    strength (value.signed tag) = Strength.ofLiteral value := by
  cases value with
  | int value =>
    by_cases hneg : value < 0
    · simp [Literal.signed, hneg, strength, Strength.ofLiteral, Strength.ofUnary]
    · simp [Literal.signed, hneg, strength]
  | _ => rfl

/-- A negative integer has the text of its opposite with a sign before it. -/
theorem Literal.bareText_signed (tag : α) {value : Literal} (h : IsWritableLiteral value) :
    bareText (value.signed tag) = renderLiteral value := by
  cases value with
  | int value =>
    by_cases hneg : value < 0
    · have hstrength : ¬ strength (Expr.constant tag (.int (-value))) < Strength.sign := by
        simp only [strength, Strength.ofLiteral]
        split <;> decide
      rw [Literal.signed, if_pos hneg, bareText, bareText, enclose, Strength.ofUnary,
        if_neg hstrength]
      exact renderLiteral_neg hneg h
    · rw [Literal.signed, if_neg hneg, bareText]
  | _ => rfl

/-! ### Signs leave the text as it is -/

theorem strength_signed (e : Expr α) : strength e.signed = strength e := by
  cases e with
  | constant tag value => exact value.strength_signed tag
  | comprehension tag kind => cases kind <;> rfl
  | _ => rfl

theorem enclose_signed (least : Strength) (e : Expr α) (text : String) :
    enclose least e.signed text = enclose least e text := by
  rw [enclose, enclose, strength_signed]

/-- Only a generator is as weak as one. -/
theorem isSoleGenerator_singleton (e : Expr α) :
    isSoleGenerator [e] = decide (strength e = Strength.generator) := by
  have hpos {c : Prop} [Decidable c] :
      (if c then Strength.sign else Strength.atom) ≠ Strength.generator := by split <;> decide
  cases e with
  | comprehension tag kind => cases kind <;> rfl
  | constant tag value =>
    cases value <;> simp only [isSoleGenerator, strength, Strength.ofLiteral, hpos, decide_false]
      <;> rfl
  | binary tag op => cases op <;> rfl
  | unary tag op => cases op <;> rfl
  | logic tag op => cases op <;> rfl
  | _ => rfl

theorem isSoleGenerator_signedAll : ∀ args : List (Expr α),
    isSoleGenerator (Expr.signedAll args) = isSoleGenerator args
  | [] => rfl
  | [e] => by rw [Expr.signedAll, Expr.signedAll, isSoleGenerator_singleton, strength_signed,
      isSoleGenerator_singleton]
  | _ :: _ :: _ => by simp [Expr.signedAll, isSoleGenerator]

mutual

theorem bareText_signed : ∀ e : Expr α, (∀ e' ∈ e.subterms, e'.IsWritable) →
    bareText e.signed = bareText e
  | .name .., _ => rfl
  | .constant tag value, h => value.bareText_signed tag (h _ (List.mem_singleton_self _))
  | .list _ items, h => by
    have hitems := bareTexts_signed Strength.or items fun e' he => h e' (.tail _ he)
    rw [Expr.signed, bareText, bareText, hitems]
  | .comprehension _ kind element var source cond, h => by
    have helement := bareText_signed element fun e' he => h e' (by simp [Expr.subterms, he])
    have hsource := bareText_signed source fun e' he => h e' (by simp [Expr.subterms, he])
    have hcond := condText_signed cond fun e' he => h e' (by simp [Expr.subterms, he])
    simp only [Expr.signed, bareText, enclose_signed, helement, hsource, hcond]
  | .binary _ op left right, h => by
    have hleft := bareText_signed left fun e' he => h e' (by simp [Expr.subterms, he])
    have hright := bareText_signed right fun e' he => h e' (by simp [Expr.subterms, he])
    simp only [Expr.signed, bareText, enclose_signed, hleft, hright]
  | .unary _ op operand, h => by
    have hoperand := bareText_signed operand fun e' he => h e' (.tail _ he)
    simp only [Expr.signed, bareText, enclose_signed, hoperand]
  | .logic _ op left right, h => by
    have hleft := bareText_signed left fun e' he => h e' (by simp [Expr.subterms, he])
    have hright := bareText_signed right fun e' he => h e' (by simp [Expr.subterms, he])
    simp only [Expr.signed, bareText, enclose_signed, hleft, hright]
  | .compare _ op left right, h => by
    have hleft := bareText_signed left fun e' he => h e' (by simp [Expr.subterms, he])
    have hright := bareText_signed right fun e' he => h e' (by simp [Expr.subterms, he])
    simp only [Expr.signed, bareText, enclose_signed, hleft, hright]
  | .call _ callee args, h => by
    have hcallee := bareText_signed callee fun e' he => h e' (by simp [Expr.subterms, he])
    have hargs (least : Strength) := bareTexts_signed least args fun e' he =>
      h e' (by simp [Expr.subterms, he])
    simp only [Expr.signed, bareText, enclose_signed, isSoleGenerator_signedAll, hcallee, hargs]
  | .attribute _ value attr, h => by
    have hvalue := bareText_signed value fun e' he => h e' (.tail _ he)
    simp only [Expr.signed, bareText, enclose_signed, hvalue]
  | .subscript _ value index, h => by
    have hvalue := bareText_signed value fun e' he => h e' (by simp [Expr.subterms, he])
    have hindex := bareText_signed index fun e' he => h e' (by simp [Expr.subterms, he])
    simp only [Expr.signed, bareText, enclose_signed, hvalue, hindex]

theorem bareTexts_signed (least : Strength) : ∀ items : List (Expr α),
    (∀ e' ∈ Expr.subtermsAll items, e'.IsWritable) →
      bareTexts least (Expr.signedAll items) = bareTexts least items
  | [], _ => rfl
  | e :: rest, h => by
    have he := bareText_signed e fun e' he => h e' (List.mem_append_left _ he)
    have hrest := furtherTexts_signed least rest fun e' he => h e' (List.mem_append_right _ he)
    simp only [Expr.signedAll, bareTexts, enclose_signed, he, hrest]

theorem furtherTexts_signed (least : Strength) : ∀ items : List (Expr α),
    (∀ e' ∈ Expr.subtermsAll items, e'.IsWritable) →
      furtherTexts least (Expr.signedAll items) = furtherTexts least items
  | [], _ => rfl
  | e :: rest, h => by
    have he := bareText_signed e fun e' he => h e' (List.mem_append_left _ he)
    have hrest := furtherTexts_signed least rest fun e' he => h e' (List.mem_append_right _ he)
    simp only [Expr.signedAll, furtherTexts, enclose_signed, he, hrest]

theorem condText_signed : ∀ cond : Option (Expr α),
    (∀ e' ∈ Expr.subtermsCond cond, e'.IsWritable) → condText (Expr.signedCond cond) = condText cond
  | none, _ => rfl
  | some e, h => by
    simp only [Expr.signedCond, condText, enclose_signed, bareText_signed e h]

end

/-- The parts of an expression are nodes of the program around it. -/
theorem Expr.isWritable_subterms {e : Expr α} (h : ∀ node ∈ e.nodes, node.IsWritable) :
    ∀ e' ∈ e.subterms, e'.IsWritable :=
  fun _ he => h _ (List.mem_map_of_mem he)

theorem expressionText_signed {e : Expr α} (h : ∀ node ∈ e.nodes, node.IsWritable) :
    expressionText e.signed = expressionText e := by
  rw [expressionText, expressionText, enclose_signed, bareText_signed e (e.isWritable_subterms h)]

theorem orPass_signed (level : Nat) (body : Block Label) (text : String) :
    Source.orPass level (Block.mapExprs Expr.signed body) text = Source.orPass level body text := by
  cases body <;> rfl

mutual

theorem renderStmt_signed (level : Nat) : ∀ s : Stmt Label, (∀ node ∈ s.nodes, node.IsWritable) →
    renderStmt level (s.mapExprs Expr.signed) = renderStmt level s
  | .functionDef _ name params body, h => by
    have hbody := renderStmts_signed (level + 1) body fun node hn => h node (.tail _ hn)
    simp only [Stmt.mapExprs, renderStmt, orPass_signed, hbody]
  | .ret _ none, _ => rfl
  | .ret _ (some value), h => by
    have hvalue := expressionText_signed (e := value) fun node hn => h node (.tail _ hn)
    simp only [Stmt.mapExprs, Option.map, renderStmt, hvalue]
  | .assign _ target value, h => by
    have htarget := expressionText_signed (e := target) fun node hn =>
      h node (by simp [Stmt.nodes, hn])
    have hvalue := expressionText_signed (e := value) fun node hn =>
      h node (by simp [Stmt.nodes, hn])
    simp only [Stmt.mapExprs, renderStmt, htarget, hvalue]
  | .augAssign _ target op value, h => by
    have htarget := expressionText_signed (e := target) fun node hn =>
      h node (by simp [Stmt.nodes, hn])
    have hvalue := expressionText_signed (e := value) fun node hn =>
      h node (by simp [Stmt.nodes, hn])
    simp only [Stmt.mapExprs, renderStmt, htarget, hvalue]
  | .forLoop _ var source body, h => by
    have hsource := expressionText_signed (e := source) fun node hn =>
      h node (by simp [Stmt.nodes, hn])
    have hbody := renderStmts_signed (level + 1) body fun node hn =>
      h node (by simp [Stmt.nodes, hn])
    simp only [Stmt.mapExprs, renderStmt, orPass_signed, hsource, hbody]
  | .whileLoop _ test body, h => by
    have htest := expressionText_signed (e := test) fun node hn =>
      h node (by simp [Stmt.nodes, hn])
    have hbody := renderStmts_signed (level + 1) body fun node hn =>
      h node (by simp [Stmt.nodes, hn])
    simp only [Stmt.mapExprs, renderStmt, orPass_signed, htest, hbody]
  | .ifElse _ test body orelse, h => by
    have htest := expressionText_signed (e := test) fun node hn =>
      h node (by simp [Stmt.nodes, hn])
    have hbody := renderStmts_signed (level + 1) body fun node hn =>
      h node (by simp [Stmt.nodes, hn])
    have horelse := renderOrelse_signed level orelse fun node hn =>
      h node (by simp [Stmt.nodes, hn])
    simp only [Stmt.mapExprs, renderStmt, orPass_signed, htest, hbody, horelse]
  | .expr _ value, h => by
    have hvalue := expressionText_signed (e := value) fun node hn => h node (.tail _ hn)
    simp only [Stmt.mapExprs, renderStmt, hvalue]
  | .pass _, _ => rfl
  | .brk _, _ => rfl
  | .cont _, _ => rfl

theorem renderStmts_signed (level : Nat) : ∀ body : List (Stmt Label),
    (∀ node ∈ Block.nodes body, node.IsWritable) →
      renderStmts level (Block.mapExprs Expr.signed body) = renderStmts level body
  | [], _ => rfl
  | s :: rest, h => by
    rw [Block.mapExprs, renderStmts, renderStmts,
      renderStmt_signed level s fun node hn => h node (List.mem_append_left _ hn),
      renderStmts_signed level rest fun node hn => h node (List.mem_append_right _ hn)]

theorem renderOrelse_signed (level : Nat) : ∀ orelse : List (Stmt Label),
    (∀ node ∈ Block.nodes orelse, node.IsWritable) →
      renderOrelse level (Block.mapExprs Expr.signed orelse) = renderOrelse level orelse
  | [], _ => rfl
  | s :: rest, h => by
    have hs := renderStmt_signed (level + 1) s fun node hn => h node (List.mem_append_left _ hn)
    have hrest := renderStmts_signed (level + 1) rest fun node hn =>
      h node (List.mem_append_right _ hn)
    have helse : indented level "else:" ++ renderStmt (level + 1) (s.mapExprs Expr.signed) ++
          renderStmts (level + 1) (Block.mapExprs Expr.signed rest) =
        indented level "else:" ++ renderStmt (level + 1) s ++ renderStmts (level + 1) rest := by
      rw [hs, hrest]
    cases s with
    | ifElse tag test body orelse =>
      cases rest with
      | nil =>
        have htest := expressionText_signed (e := test) fun node hn =>
          h node (by simp [Block.nodes, Stmt.nodes, hn])
        have hbody := renderStmts_signed (level + 1) body fun node hn =>
          h node (by simp [Block.nodes, Stmt.nodes, hn])
        have horelse := renderOrelse_signed level orelse fun node hn =>
          h node (by simp [Block.nodes, Stmt.nodes, hn])
        simp only [Block.mapExprs, Stmt.mapExprs, renderOrelse, orPass_signed, htest, hbody, horelse]
      | cons s₂ rest => exact helse
    | _ => exact helse

end

/-- With a sign before its negative integers a program has the same text. -/
theorem render_signed {body : Block Label} (h : Block.IsWritable body) :
    render (Block.signed body) = render body :=
  renderStmts_signed 0 body h

/-! ### Enough levels -/

/-- What is one level further in needs one level more. -/
theorem eventually_inside {P : Nat → Prop} (h : ∀ᶠ n in atTop, P n) :
    ∀ᶠ n in atTop, 0 < n ∧ P (n - 1) :=
  (eventually_gt_atTop 0).and ((tendsto_sub_atTop_nat 1).eventually h)

/-- Parentheses need one level more. -/
theorem eventually_enclosed (least : Strength) {e : Expr α} (h : ∀ᶠ n in atTop, e.Fits n) :
    ∀ᶠ n in atTop, EnclosedFits least e (fun m => e.Fits m) n :=
  (eventually_inside h).mono fun _ hfits => hfits.2.enclosed hfits.1

theorem Literal.eventually_signed (tag : α) {value : Literal} (h : IsWritableLiteral value) :
    ∀ᶠ n in atTop, (value.signed tag).Fits n := by
  cases value with
  | int value =>
    by_cases hneg : value < 0
    · have hpos : 0 ≤ (-value).toInt := by
        have := Int64.lt_iff_toInt_lt.mp hneg
        rw [toInt_neg_of_ne h]
        simp at this
        omega
      rw [Literal.signed, if_pos hneg]
      have hconstant : ∀ᶠ n in atTop, (Expr.constant tag (.int (-value))).Fits n :=
        .of_forall fun _ => hpos
      exact eventually_inside (eventually_enclosed _ hconstant)
    · rw [Literal.signed, if_neg hneg]
      refine .of_forall fun _ => ?_
      show 0 ≤ value.toInt
      rw [Int64.lt_iff_toInt_lt] at hneg
      simp at hneg
      exact hneg
  | _ => exact .of_forall fun _ => h

mutual

/-- By induction on the expression: every place needs finitely many levels. -/
theorem Expr.eventually_fits : ∀ e : Expr α, (∀ e' ∈ e.subterms, e'.IsWritable) →
    ∀ᶠ n in atTop, e.signed.Fits n
  | .name .., h => .of_forall fun _ => h _ (List.mem_singleton_self _)
  | .constant tag value, h => value.eventually_signed tag (h _ (List.mem_singleton_self _))
  | .list _ items, h => by
    have hitems := Expr.eventually_fitAll Strength.or items fun e' he => h e' (.tail _ he)
    exact (eventually_inside hitems).mono fun _ hfits _ => hfits
  | .comprehension tag kind element var source cond, h => by
    have hvar : IsIdentifier var := h _ (List.mem_cons_self ..)
    have helement := eventually_enclosed Strength.or
      (element.eventually_fits fun e' he => h e' (by simp [Expr.subterms, he]))
    have hsource := eventually_enclosed Strength.or
      (source.eventually_fits fun e' he => h e' (by simp [Expr.subterms, he]))
    have hcond := Expr.eventually_fitCond cond fun e' he => h e' (by simp [Expr.subterms, he])
    have hclauses := helement.and (hsource.and hcond)
    cases kind with
    | list =>
      exact (eventually_inside hclauses).mono fun _ hfits => ⟨hfits.1, hvar, hfits.2⟩
    | generator => exact hclauses.mono fun _ hfits => ⟨hvar, hfits⟩
  | .binary _ op left right, h => by
    have hleft := eventually_enclosed (Strength.leftOf op)
      (left.eventually_fits fun e' he => h e' (by simp [Expr.subterms, he]))
    have hright := right.eventually_fits fun e' he => h e' (by simp [Expr.subterms, he])
    filter_upwards [hleft, eventually_enclosed (Strength.rightOf op) hright,
      eventually_inside (eventually_enclosed Strength.sign hright)] with n hl hr hinside
    refine ⟨hl, ?_⟩
    split
    · exact hinside
    · exact hr
  | .unary _ op operand, h =>
    eventually_inside (eventually_enclosed _
      (operand.eventually_fits fun e' he => h e' (.tail _ he)))
  | .logic _ op left right, h => by
    have hleft := eventually_enclosed (Strength.ofLogic op)
      (left.eventually_fits fun e' he => h e' (by simp [Expr.subterms, he]))
    have hright := eventually_enclosed (Strength.ofLogic op + 1)
      (right.eventually_fits fun e' he => h e' (by simp [Expr.subterms, he]))
    exact hleft.and hright
  | .compare _ op left right, h => by
    have hleft := eventually_enclosed (Strength.compare + 1)
      (left.eventually_fits fun e' he => h e' (by simp [Expr.subterms, he]))
    have hright := eventually_enclosed (Strength.compare + 1)
      (right.eventually_fits fun e' he => h e' (by simp [Expr.subterms, he]))
    exact hleft.and hright
  | .call _ callee args, h => by
    have hcallee := eventually_enclosed Strength.atom
      (callee.eventually_fits fun e' he => h e' (by simp [Expr.subterms, he]))
    have hargs := Expr.eventually_fitAll
      (if isSoleGenerator (Expr.signedAll args) then Strength.generator else Strength.or) args
      fun e' he => h e' (by simp [Expr.subterms, he])
    filter_upwards [hcallee, eventually_inside hargs] with n hc ha
    exact ⟨hc, fun _ => ha⟩
  | .attribute _ value attr, h => by
    have hattr : IsIdentifier attr := h _ (List.mem_cons_self ..)
    have hvalue := eventually_enclosed Strength.atom
      (value.eventually_fits fun e' he => h e' (.tail _ he))
    exact hvalue.mono fun _ hfits => ⟨hfits, hattr⟩
  | .subscript _ value index, h => by
    have hvalue := eventually_enclosed Strength.atom
      (value.eventually_fits fun e' he => h e' (by simp [Expr.subterms, he]))
    have hindex := eventually_inside (eventually_enclosed Strength.or
      (index.eventually_fits fun e' he => h e' (by simp [Expr.subterms, he])))
    exact hvalue.and hindex

theorem Expr.eventually_fitAll (least : Strength) : ∀ items : List (Expr α),
    (∀ e' ∈ Expr.subtermsAll items, e'.IsWritable) →
      ∀ᶠ n in atTop, Expr.FitAll n least (Expr.signedAll items)
  | [], _ => .of_forall fun _ => trivial
  | e :: rest, h =>
    (eventually_enclosed least
      (e.eventually_fits fun e' he => h e' (List.mem_append_left _ he))).and
      (Expr.eventually_fitAll least rest fun e' he => h e' (List.mem_append_right _ he))

theorem Expr.eventually_fitCond : ∀ cond : Option (Expr α),
    (∀ e' ∈ Expr.subtermsCond cond, e'.IsWritable) →
      ∀ᶠ n in atTop, Expr.FitCond n (Expr.signedCond cond)
  | none, _ => .of_forall fun _ => trivial
  | some e, h => eventually_enclosed Strength.or (e.eventually_fits h)

end

theorem Expr.eventually_fitsStmt {e : Expr α} (h : ∀ node ∈ e.nodes, node.IsWritable) :
    ∀ᶠ n in atTop, e.signed.FitsStmt n :=
  eventually_inside (eventually_enclosed _ (e.eventually_fits (e.isWritable_subterms h)))

theorem isAssignable_signed {e : Expr α} (h : e.isAssignable = true) :
    e.signed.isAssignable = true := by
  cases e <;> first | rfl | cases h

mutual

theorem Stmt.eventually_fits : ∀ s : Stmt Label, (∀ node ∈ s.nodes, node.IsWritable) →
    ∀ᶠ n in atTop, (s.mapExprs Expr.signed).Fits n
  | .functionDef _ name params body, h => by
    obtain ⟨hname, hparams, hnodup⟩ : IsIdentifier name ∧ (∀ param ∈ params, IsIdentifier param) ∧
      params.Nodup := h _ (List.mem_cons_self ..)
    have hbody := Block.eventually_fits body fun node hn => h node (.tail _ hn)
    exact (eventually_inside hbody).mono fun _ hfits => ⟨hname, hparams, hnodup, hfits⟩
  | .ret _ none, _ => .of_forall fun _ => nofun
  | .ret _ (some value), h => by
    have hvalue := Expr.eventually_fitsStmt (e := value) fun node hn => h node (.tail _ hn)
    refine hvalue.mono fun _ hfits e he => ?_
    cases he
    exact hfits
  | .assign _ target value, h => by
    have hassignable : target.isAssignable = true := h _ (List.mem_cons_self ..)
    have htarget := Expr.eventually_fitsStmt (e := target) fun node hn =>
      h node (by simp [Stmt.nodes, hn])
    have hvalue := Expr.eventually_fitsStmt (e := value) fun node hn =>
      h node (by simp [Stmt.nodes, hn])
    exact (htarget.and hvalue).mono fun _ hfits => ⟨isAssignable_signed hassignable, hfits⟩
  | .augAssign _ target op value, h => by
    obtain ⟨hassignable, hop⟩ : target.isAssignable = true ∧ op ≠ .pow :=
      h _ (List.mem_cons_self ..)
    have htarget := Expr.eventually_fitsStmt (e := target) fun node hn =>
      h node (by simp [Stmt.nodes, hn])
    have hvalue := Expr.eventually_fitsStmt (e := value) fun node hn =>
      h node (by simp [Stmt.nodes, hn])
    exact (htarget.and hvalue).mono fun _ hfits => ⟨isAssignable_signed hassignable, hop, hfits⟩
  | .forLoop _ var source body, h => by
    have hvar : IsIdentifier var := h _ (List.mem_cons_self ..)
    have hsource := Expr.eventually_fitsStmt (e := source) fun node hn =>
      h node (by simp [Stmt.nodes, hn])
    have hbody := eventually_inside (Block.eventually_fits body fun node hn =>
      h node (by simp [Stmt.nodes, hn]))
    exact (hsource.and hbody).mono fun _ hfits => ⟨hvar, hfits.1, hfits.2.2⟩
  | .whileLoop _ test body, h => by
    have htest := Expr.eventually_fitsStmt (e := test) fun node hn =>
      h node (by simp [Stmt.nodes, hn])
    have hbody := eventually_inside (Block.eventually_fits body fun node hn =>
      h node (by simp [Stmt.nodes, hn]))
    exact (htest.and hbody).mono fun _ hfits => ⟨hfits.1, hfits.2.2⟩
  | .ifElse _ test body orelse, h => by
    have htest := Expr.eventually_fitsStmt (e := test) fun node hn =>
      h node (by simp [Stmt.nodes, hn])
    have hbody := eventually_inside (Block.eventually_fits body fun node hn =>
      h node (by simp [Stmt.nodes, hn]))
    have horelse := Block.eventually_fits orelse fun node hn => h node (by simp [Stmt.nodes, hn])
    filter_upwards [htest, hbody, horelse, eventually_inside horelse] with n ht hb ho hinside
    refine ⟨ht, hb.2, ?_⟩
    split
    · exact ho
    · exact hinside.2
  | .expr _ value, h => Expr.eventually_fitsStmt (e := value) fun node hn => h node (.tail _ hn)
  | .pass _, _ | .brk _, _ | .cont _, _ => .of_forall fun _ => trivial

theorem Block.eventually_fits : ∀ body : List (Stmt Label),
    (∀ node ∈ Block.nodes body, node.IsWritable) →
      ∀ᶠ n in atTop, Block.Fits n (Block.mapExprs Expr.signed body)
  | [], _ => .of_forall fun _ => trivial
  | s :: rest, h =>
    (s.eventually_fits fun node hn => h node (List.mem_append_left _ hn)).and
      (Block.eventually_fits rest fun node hn => h node (List.mem_append_right _ hn))

end

/-- With enough levels a program can be written down whose nodes can. -/
theorem Block.IsWritable.exists_fits {body : Block Label} (h : Block.IsWritable body) :
    ∃ levels, Block.Fits levels (Block.signed body) :=
  (Block.eventually_fits body h).exists

/-- The text of a program whose nodes can be written down is read back, with a sign before
its negative integers and `pass` in its empty bodies, or it is nested too deep. -/
theorem Block.IsWritable.readsAs {body : Block Label} (h : Block.IsWritable body) :
    ReadsAs (render body) (Block.shape (Block.filled (Block.signed body))) := by
  obtain ⟨levels, hfits⟩ := h.exists_fits
  rw [← render_signed h]
  exact parse_render_or_nesting hfits

/-! ### Programs that have been read -/

theorem IsPlainLiteral.isWritable {value : Literal} (h : IsPlainLiteral value) :
    IsWritableLiteral value := by
  cases value with
  | int value =>
    rintro rfl
    have hmin : ¬ 0 ≤ Int64.minValue.toInt := by decide
    exact hmin h
  | _ => exact h

mutual

theorem Expr.Fits.isWritable : ∀ {e : Expr α} {n : Nat}, e.Fits n →
    ∀ e' ∈ e.subterms, e'.IsWritable
  | .name .., _, h => fun e' he => by
    rw [List.mem_singleton.mp he]
    exact h
  | .constant .., _, h => fun e' he => by
    rw [List.mem_singleton.mp he]
    exact IsPlainLiteral.isWritable h
  | .list _ items, n, h => fun e' he => by
    rcases List.mem_cons.mp he with rfl | he
    · trivial
    · exact Expr.FitAll.isWritable (fun hitems => (h hitems).2) e' he
  | .comprehension _ kind element var source cond, n, h => fun e' he => by
    have hclauses : IsIdentifier var ∧ (∃ m, element.Fits m) ∧ (∃ m, source.Fits m) ∧
        ∃ m, Expr.FitCond m cond := by
      cases kind with
      | list => exact ⟨h.2.1, ⟨_, h.2.2.1.fits⟩, ⟨_, h.2.2.2.1.fits⟩, _, h.2.2.2.2⟩
      | generator => exact ⟨h.1, ⟨_, h.2.1.fits⟩, ⟨_, h.2.2.1.fits⟩, _, h.2.2.2⟩
    obtain ⟨hvar, ⟨_, helement⟩, ⟨_, hsource⟩, _, hcond⟩ := hclauses
    simp only [Expr.subterms, List.mem_cons, List.mem_append] at he
    rcases he with rfl | (he | he) | he
    · exact hvar
    · exact helement.isWritable e' he
    · exact hsource.isWritable e' he
    · exact hcond.isWritable e' he
  | .binary _ op left right, n, h => fun e' he => by
    have hright : ∃ m, right.Fits m := by
      have hright := h.2
      split at hright
      · exact ⟨_, hright.2.fits⟩
      · exact ⟨_, hright.fits⟩
    obtain ⟨_, hright⟩ := hright
    simp only [Expr.subterms, List.mem_cons, List.mem_append] at he
    rcases he with rfl | he | he
    · trivial
    · exact h.1.fits.isWritable e' he
    · exact hright.isWritable e' he
  | .unary _ op operand, n, h => fun e' he => by
    rcases List.mem_cons.mp he with rfl | he
    · trivial
    · exact h.2.fits.isWritable e' he
  | .logic _ op left right, n, h => fun e' he => by
    simp only [Expr.subterms, List.mem_cons, List.mem_append] at he
    rcases he with rfl | he | he
    · trivial
    · exact h.1.fits.isWritable e' he
    · exact h.2.fits.isWritable e' he
  | .compare _ op left right, n, h => fun e' he => by
    simp only [Expr.subterms, List.mem_cons, List.mem_append] at he
    rcases he with rfl | he | he
    · trivial
    · exact h.1.fits.isWritable e' he
    · exact h.2.fits.isWritable e' he
  | .call _ callee args, n, h => fun e' he => by
    simp only [Expr.subterms, List.mem_cons, List.mem_append] at he
    rcases he with rfl | he | he
    · trivial
    · exact h.1.fits.isWritable e' he
    · exact Expr.FitAll.isWritable (fun hargs => (h.2 hargs).2) e' he
  | .attribute _ value attr, n, h => fun e' he => by
    rcases List.mem_cons.mp he with rfl | he
    · exact h.2
    · exact h.1.fits.isWritable e' he
  | .subscript _ value index, n, h => fun e' he => by
    simp only [Expr.subterms, List.mem_cons, List.mem_append] at he
    rcases he with rfl | he | he
    · trivial
    · exact h.1.fits.isWritable e' he
    · exact h.2.2.fits.isWritable e' he

theorem Expr.FitAll.isWritable : ∀ {items : List (Expr α)} {n : Nat} {least : Strength},
    (items ≠ [] → Expr.FitAll n least items) → ∀ e' ∈ Expr.subtermsAll items, e'.IsWritable
  | [], _, _, _ => nofun
  | e :: rest, n, least, h => fun e' he => by
    have h := h (List.cons_ne_nil e rest)
    rcases List.mem_append.mp he with he | he
    · exact h.1.fits.isWritable e' he
    · exact Expr.FitAll.isWritable (fun _ => h.2) e' he

theorem Expr.FitCond.isWritable : ∀ {cond : Option (Expr α)} {n : Nat}, Expr.FitCond n cond →
    ∀ e' ∈ Expr.subtermsCond cond, e'.IsWritable
  | none, _, _ => nofun
  | some _, _, h => EnclosedFits.fits h |>.isWritable

end

theorem Expr.FitsStmt.isWritable {e : Expr α} {n : Nat} (h : e.FitsStmt n) :
    ∀ node ∈ e.nodes, node.IsWritable := by
  intro node hn
  obtain ⟨e', he, rfl⟩ := List.mem_map.mp hn
  exact h.2.fits.isWritable e' he

mutual

theorem Stmt.Fits.isWritable : ∀ {s : Stmt α} {n : Nat}, s.Fits n → ∀ node ∈ s.nodes, node.IsWritable
  | .functionDef .., _, h => fun node hn => by
    rcases List.mem_cons.mp hn with rfl | hn
    · exact ⟨h.1, h.2.1, h.2.2.1⟩
    · exact h.2.2.2.2.isWritable node hn
  | .ret _ none, _, _ => fun node hn => by
    rw [List.mem_singleton.mp hn]
    trivial
  | .ret _ (some value), _, h => fun node hn => by
    rcases List.mem_cons.mp hn with rfl | hn
    · trivial
    · exact (h value rfl).isWritable node hn
  | .assign .., _, h => fun node hn => by
    simp only [Stmt.nodes, List.mem_cons, List.mem_append] at hn
    rcases hn with rfl | hn | hn
    · exact h.1
    · exact h.2.1.isWritable node hn
    · exact h.2.2.isWritable node hn
  | .augAssign .., _, h => fun node hn => by
    simp only [Stmt.nodes, List.mem_cons, List.mem_append] at hn
    rcases hn with rfl | hn | hn
    · exact ⟨h.1, h.2.1⟩
    · exact h.2.2.1.isWritable node hn
    · exact h.2.2.2.isWritable node hn
  | .forLoop .., _, h => fun node hn => by
    simp only [Stmt.nodes, List.mem_cons, List.mem_append] at hn
    rcases hn with rfl | hn | hn
    · exact h.1
    · exact h.2.1.isWritable node hn
    · exact h.2.2.isWritable node hn
  | .whileLoop .., _, h => fun node hn => by
    simp only [Stmt.nodes, List.mem_cons, List.mem_append] at hn
    rcases hn with rfl | hn | hn
    · trivial
    · exact h.1.isWritable node hn
    · exact h.2.isWritable node hn
  | .ifElse .., _, h => fun node hn => by
    simp only [Stmt.nodes, List.mem_cons, List.mem_append] at hn
    rcases hn with rfl | (hn | hn) | hn
    · trivial
    · exact h.1.isWritable node hn
    · exact h.2.1.isWritable node hn
    · exact h.2.2.isWritable node hn
  | .expr _ value, _, h => fun node hn => by
    rcases List.mem_cons.mp hn with rfl | hn
    · trivial
    · exact Expr.FitsStmt.isWritable h node hn
  | .pass _, _, _ | .brk _, _, _ | .cont _, _, _ => fun node hn => by
    rw [List.mem_singleton.mp hn]
    trivial

/-- The nodes of a program that can be written down can be written down. -/
theorem Block.Fits.isWritable : ∀ {body : List (Stmt α)} {n : Nat}, Block.Fits n body →
    Block.IsWritable body
  | [], _, _ => nofun
  | _ :: _, _, h => fun node hn => by
    rcases List.mem_append.mp hn with hn | hn
    · exact h.1.isWritable node hn
    · exact h.2.isWritable node hn

end

end ProgramBreeding

import Mathlib.Data.List.Forall2
import ProgramBreeding.Proofs.Source.Parametric

/-!
# Columns only show in messages

The parser looks at the kinds and the lines of the tokens.  Their columns turn up in the
errors that it reports, and nowhere else.

## Main definitions

* `Token.SameButColumn` — tokens that differ in their columns at most.
* `Agrees` — the outcomes of two runs of the parser, up to columns.

## Main results

* `parseTokens_agrees` — tokens that differ in their columns are parsed alike.
-/

namespace ProgramBreeding.Source

open ProgramBreeding.Source.Parser

/-- Tokens that differ in their columns at most. -/
def Token.SameButColumn (t u : Token) : Prop := t.kind = u.kind ∧ t.line = u.line

/-- The same result, or the same error up to its column. -/
inductive Agrees {β γ : Type} (P : β → γ → Prop) : Except ParseError β → Except ParseError γ → Prop
  | ok {b : β} {c : γ} (h : P b c) : Agrees P (.ok b) (.ok c)
  | error (line column column' : Nat) (cause : Cause) :
      Agrees P (.error ⟨line, column, cause⟩) (.error ⟨line, column', cause⟩)

namespace Parser

/-- The same result is left by tokens that differ in their columns. -/
def SameResult {β : Type} (r r' : β × List Token) : Prop :=
  r.1 = r'.1 ∧ List.Forall₂ Token.SameButColumn r.2 r'.2

/-- The first parser does to some tokens what the second does to tokens that differ in their columns. -/
def Uniform {β : Type} (p q : Parser β) : Prop :=
  ∀ ts us, List.Forall₂ Token.SameButColumn ts us → Agrees SameResult (p ts) (q us)

theorem Uniform.bind {β γ : Type} {p q : Parser β} {f g : β → Parser γ} (hp : Uniform p q)
    (hf : ∀ b, Uniform (f b) (g b)) : Uniform (p >>= f) (q >>= g) := by
  intro ts us htokens
  show Agrees SameResult (p ts >>= fun r => f r.1 r.2) (q us >>= fun r => g r.1 r.2)
  have hagrees := hp ts us htokens
  generalize p ts = outcome, q us = outcome' at hagrees
  cases hagrees with
  | error line column column' cause => exact .error line column column' cause
  | @ok r r' h =>
    obtain ⟨b, rest⟩ := r
    obtain ⟨b', rest'⟩ := r'
    obtain ⟨rfl, hrest⟩ := h
    exact hf b rest rest' hrest

theorem compareOp?_eq {ts us : List Token} (h : List.Forall₂ Token.SameButColumn ts us) :
    compareOp? ts = compareOp? us := by
  cases h with
  | nil => rfl
  | cons hfirst hrest =>
    unfold compareOp?
    dsimp only
    rw [hfirst.1]
    cases hrest with
    | nil => rfl
    | cons hsecond _ =>
      simp only [List.head?_cons, Option.any_some, hsecond.1]
      rfl

/-- No rule of the grammar looks at columns. -/
theorem uniform_congruence : Congruence Token.SameButColumn Uniform where
  kind h := h.1
  line h := h.2
  pure _ := fun _ _ h => .ok ⟨rfl, h⟩
  bind := Uniform.bind
  current h := by
    intro ts us htokens
    cases htokens with
    -- Where no token is left, both parsers see the same end of the text.
    | nil => exact h _ _ ⟨rfl, rfl⟩ [] [] .nil
    | cons hfirst hrest => exact h _ _ hfirst _ _ (.cons hfirst hrest)
  tokens h := fun ts us htokens => h ts us (compareOp?_eq htokens) ts us htokens
  advance := by
    intro ts us htokens
    cases htokens with
    | nil => exact .ok ⟨rfl, .nil⟩
    | cons hfirst hrest =>
      cases hrest with
      | nil => exact .ok ⟨rfl, .cons hfirst .nil⟩
      | cons hsecond hrest => exact .ok ⟨rfl, .cons hsecond hrest⟩
  failAt cause h := fun _ _ _ => by
    unfold Parser.failAt
    rw [h.2]
    exact .error _ _ _ cause
  throw e := fun _ _ _ => .error e.line e.column e.column e.cause

end Parser

/-- Tokens that differ in their columns denote the same program, or the same error up to its column. -/
theorem parseTokens_agrees {ts us : List Token} (h : List.Forall₂ Token.SameButColumn ts us) :
    Agrees Eq (parseTokens ts) (parseTokens us) := by
  unfold parseTokens parseTokensWithin StateT.run'
  rw [← h.length_eq]
  have hagrees := uniform_congruence.programAfter (uniform_congruence.level ts.length maxNesting)
    ts.length ts.length [] ts us h
  generalize programAfter ts.length (level ts.length maxNesting) ts.length [] ts = outcome,
    programAfter ts.length (level ts.length maxNesting) ts.length [] us = outcome' at hagrees ⊢
  cases hagrees with
  | ok hsame => exact .ok hsame.1
  | error line column column' cause => exact .error line column column' cause

end ProgramBreeding.Source

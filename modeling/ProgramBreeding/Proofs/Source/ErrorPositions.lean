import ProgramBreeding.Proofs.Source.Parametric
import ProgramBreeding.Proofs.Source.Positions

/-!
# Positions of errors

The parser reports an error at a token, or at the start of the line that an expression is tagged with, which is the
line of a token.  So if the tokens stand in the text, all errors do.

## Main definitions

* `Token.IsIn` — a token that stands in the text.
* `Parser.StaysIn` — what a parser comes to if the tokens stand in the text.

## Main results

* `staysIn_congruence` — all rules of the grammar stay in the text.
* `isPosition_of_parse` — the error of a text stands in it.
-/

namespace ProgramBreeding.Source

open ProgramBreeding.Source.Parser

variable {text : List Char}

/-- A token that stands in the text. -/
def Token.IsIn (text : List Char) (t : Token) : Prop := IsPosition text t.line t.column

namespace Parser

variable {β γ : Type} {P : β → Prop} {Q : γ → Prop}

/-- Run on tokens that stand in the text, a parser comes to a result with the property, and leaves such tokens, or it
comes to an error that stands in the text. -/
def StaysIn (text : List Char) (p : Parser β) (P : β → Prop) : Prop :=
  ∀ ts, (∀ t ∈ ts, t.IsIn text) → Points text (fun r => P r.1 ∧ ∀ t ∈ r.2, t.IsIn text) (p ts)

theorem StaysIn.bind {p : Parser β} {f : β → Parser γ} (hp : StaysIn text p P)
    (hf : ∀ b, P b → StaysIn text (f b) Q) : StaysIn text (p >>= f) Q := by
  intro ts hts
  have hfirst := hp ts hts
  show Points text _ (p ts >>= fun r => f r.1 r.2)
  generalize p ts = outcome at hfirst ⊢
  cases hfirst with
  | error h => exact .error h
  | @ok r h => exact hf r.1 h.1 r.2 h.2

/-- Where no token is left, the end of the text stands at its start. -/
theorem staysIn_current : StaysIn text current (Token.IsIn text) := by
  intro ts hts
  cases ts with
  | nil => exact .ok ⟨IsPosition.start text, hts⟩
  | cons t rest => exact .ok ⟨hts t (List.mem_cons_self ..), hts⟩

theorem staysIn_advance : StaysIn text advance fun _ => True := by
  intro ts hts
  cases ts with
  | nil => exact .ok ⟨trivial, hts⟩
  | cons t rest =>
    cases rest with
    | nil => exact .ok ⟨trivial, hts⟩
    | cons u rest => exact .ok ⟨trivial, fun t ht => hts t (List.mem_cons_of_mem _ ht)⟩

/-- The rules of the grammar stay in the text, and they tag expressions with lines of it. -/
theorem staysIn_congruence (text : List Char) :
    TaggedCongruence (fun t u => t = u ∧ u.IsIn text) (fun line => IsPosition text line 1)
      fun tag? p _ => StaysIn text p fun b => Allowed (fun line => IsPosition text line 1) (tag? b) where
  kind h := congrArg Token.kind h.1
  line h := congrArg Token.line h.1
  tag h := h.2.lineStart
  pure h := fun _ hts => .ok ⟨h, hts⟩
  bind := StaysIn.bind
  current h := staysIn_current.bind fun t ht => h t t ⟨rfl, ht⟩
  tokens h := fun ts hts => h ts ts rfl ts hts
  advance := staysIn_advance
  failAt _ h := fun _ _ => .error (h.1 ▸ h.2)
  throw h := fun _ _ => .error h

end Parser

/-- Tokens that stand in a text denote a program, or there is an error that stands in the text. -/
theorem points_parseTokens {ts : List Token} (h : ∀ t ∈ ts, t.IsIn text) :
    Points text (fun _ => True) (parseTokens ts) := by
  have hrules := staysIn_congruence text
  have hrun := hrules.programAfter (hrules.level ts.length maxNesting) ts.length ts.length [] ts h
  unfold parseTokens parseTokensWithin StateT.run'
  generalize programAfter ts.length (level ts.length maxNesting) ts.length [] ts = outcome at hrun ⊢
  cases hrun with
  | error h => exact .error h
  | ok h => exact .ok trivial

/-- The error of a text that denotes no program stands in the text, or directly behind one of its lines. -/
theorem isPosition_of_parse {text : String} {e : ParseError} (h : parse text = .error e) :
    IsPosition text.toList e.line e.column := by
  have htokens := points_tokenize text
  unfold parse at h
  generalize tokenize text = outcome at htokens h
  cases htokens with
  | error hposition =>
    cases h
    exact hposition
  | ok hin =>
    have hprogram := points_parseTokens hin
    rw [show parseTokens _ = Except.error e from h] at hprogram
    cases hprogram with
    | error hposition => exact hposition

/-- A text whose last line assigns to a number. -/
def misassigned : String := "x = [1,\n  2]\n1 = x\n"

theorem isPosition_of_parse_misassigned :
    ∃ e, parse misassigned = .error e ∧ IsPosition misassigned.toList e.line e.column := by
  have hfails : (parse misassigned).isOk = false := by decide +kernel
  cases h : parse misassigned with
  | error e => exact ⟨e, rfl, isPosition_of_parse h⟩
  | ok body =>
    rw [h] at hfails
    cases hfails

end ProgramBreeding.Source

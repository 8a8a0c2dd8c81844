import ProgramBreeding.Proofs.Source.Parametric
import ProgramBreeding.Proofs.Source.RoundTrip

/-!
# What the nesting limit decides

A parser with fewer nesting levels left reads the same, unless it runs out of them.

## Main definitions

* `Limited` — one parser does what another does, unless its nesting levels run out.
* `limited_congruence`, `within_level` — so do all rules, and the parsers of fewer levels.
* `parse_render_or_nesting` — a text printed for a program that could be written down with
  enough levels is read back, or it is nested too deep.
-/

namespace ProgramBreeding.Source

open ProgramBreeding.Source.Parser Level

variable {α β γ : Type}

/-- The first parser does what the second does, unless its nesting levels run out. -/
def Limited (p q : Parser β) : Prop :=
  ∀ ts, p ts = q ts ∨ ∃ line column, p ts = .error ⟨line, column, .nestingTooDeep⟩

namespace Limited

protected theorem refl (p : Parser β) : Limited p p := fun _ => .inl rfl

protected theorem bind {p q : Parser β} {f g : β → Parser γ} (hp : Limited p q)
    (hf : ∀ b, Limited (f b) (g b)) : Limited (p >>= f) (q >>= g) := by
  intro ts
  show (p ts >>= fun r => f r.1 r.2) = (q ts >>= fun r => g r.1 r.2) ∨ ∃ line column,
    (p ts >>= fun r => f r.1 r.2) = .error ⟨line, column, .nestingTooDeep⟩
  obtain heq | ⟨line, column, herror⟩ := hp ts
  · rw [heq]
    cases q ts with
    | error e => exact .inl rfl
    | ok r => exact hf r.1 r.2
  · rw [herror]
    exact .inr ⟨line, column, rfl⟩

end Limited

/-- The rules of the grammar do the same with fewer levels, unless these run out. -/
theorem limited_congruence : Congruence Eq Limited where
  kind h := congrArg Token.kind h
  line h := congrArg Token.line h
  pure _ := .refl _
  bind := Limited.bind
  current h := .bind (.refl _) fun t => h t t rfl
  tokens h := .bind (.refl _) fun ts => h ts ts rfl
  advance := .refl _
  failAt := fun _ h => h ▸ .refl _
  throw _ := .refl _

namespace Level

/-- The parsers of one level do what those of another do, unless their nesting levels run
out. -/
structure Within (inner outer : Level) : Prop where
  orExpr : Limited inner.orExpr outer.orExpr
  notExpr : Limited inner.notExpr outer.notExpr
  factor : Limited inner.factor outer.factor
  block : Limited inner.block outer.block

theorem Within.related {inner outer : Level} (h : inner.Within outer) :
    Related Limited inner outer :=
  ⟨h.orExpr, h.notExpr, h.factor, h.block⟩

theorem Within.outward {inner outer : Level} (h : inner.Within outer) (bound : Nat) :
    (inner.outward bound).Within (outer.outward bound) := by
  have hrelated := limited_congruence.outward h.related bound
  exact ⟨hrelated.orExpr, hrelated.notExpr, hrelated.factor, hrelated.block⟩

/-- Without a level left, everything that can be entered is nested too deep. -/
theorem within_exhausted (outer : Level) : exhausted.Within outer := by
  have hfail {β : Type} {p : Parser β} : Limited (fail .nestingTooDeep) p := by
    intro ts
    cases ts with
    | nil => exact .inr ⟨_, _, rfl⟩
    | cons t rest => exact .inr ⟨_, _, rfl⟩
  exact ⟨hfail, hfail, hfail, hfail⟩

end Level

theorem within_level (bound : Nat) : ∀ {m n : Nat}, m ≤ n →
    (level bound m).Within (level bound n)
  | 0, _, _ => within_exhausted _
  | _ + 1, _ + 1, h => (within_level bound (Nat.le_of_succ_le_succ h)).outward bound

/-- With fewer levels, the same program is read from some tokens, or they are nested too
deep. -/
theorem parseTokensWithin_limited {m n : Nat} (h : m ≤ n) (ts : List Token) :
    parseTokensWithin m ts = parseTokensWithin n ts ∨
      ∃ line column, parseTokensWithin m ts = .error ⟨line, column, .nestingTooDeep⟩ := by
  unfold parseTokensWithin StateT.run'
  obtain heq | ⟨line, column, herror⟩ :=
    limited_congruence.programAfter (within_level ts.length h).related ts.length ts.length [] ts
  · exact .inl (by rw [heq])
  · exact .inr ⟨line, column, by rw [herror]; rfl⟩

/-- A text is read as a program of the given shape, or it is nested too deep. -/
def ReadsAs (text : String) (shape : Block Unit) : Prop :=
  (∃ body, parse text = .ok body ∧ Block.shape body = shape) ∨
    ∃ line column, parse text = .error ⟨line, column, .nestingTooDeep⟩

/-- The text of a program that could be written down with some number of levels is read
back, or it is nested too deep. -/
theorem parse_render_or_nesting {levels : Nat} {body : Block α} (h : Block.Fits levels body) :
    ReadsAs (render body) (Block.shape (Block.filled body)) := by
  have hmore : Block.Fits (max maxNesting levels) body := h.mono (Nat.le_max_right ..)
  obtain ⟨ts, htokens, hkinds⟩ := tokenize_render hmore
  obtain ⟨body', hrun, hshape⟩ := parseTokensWithin_run hmore hkinds
  have hparse : parse (render body) = parseTokensWithin maxNesting ts := by
    unfold parse
    rw [htokens]
    rfl
  obtain heq | herror := parseTokensWithin_limited (Nat.le_max_left maxNesting levels) ts
  · exact .inl ⟨body', by rw [hparse, heq, hrun], hshape⟩
  · exact .inr (by rwa [hparse])

end ProgramBreeding.Source

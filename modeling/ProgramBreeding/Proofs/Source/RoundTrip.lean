import ProgramBreeding.Proofs.Source.Lexemes
import ProgramBreeding.Proofs.Source.Rebuilding

/-!
# Printing and reading again

What is printed for a program that has been read is read as the same program, and is
printed for that program again.

## Main definitions

* `parse_render` — a program that can be written down is read back from its text.
* `render_filled` — `pass` in the empty bodies of a program does not change its text.
* `parse_render_of_parse` — printing a program that has been read, and reading it again.

## Design notes

The text of a program depends on its shape only.  That reading it again gives a program
with the same text is therefore a consequence of the shapes.
-/

namespace ProgramBreeding.Source

open ProgramBreeding.Source.Parser Level

variable {α β : Type}

/-! ### The text depends on the shape only -/

theorem strength_map (f : α → β) (e : Expr α) : strength (e.map f) = strength e := by
  cases e with
  | comprehension tag kind => cases kind <;> rfl
  | _ => rfl

theorem enclose_map (f : α → β) (least : Strength) (e : Expr α) (text : String) :
    enclose least (e.map f) text = enclose least e text := by
  rw [enclose, enclose, strength_map]

theorem isSoleGenerator_map (f : α → β) (args : List (Expr α)) :
    isSoleGenerator (Expr.mapAll f args) = isSoleGenerator args := by
  match args with
  | [] => rfl
  | [e] =>
    cases e with
    | comprehension tag kind => cases kind <;> rfl
    | _ => rfl
  | e :: _ :: _ =>
    cases e with
    | comprehension tag kind => cases kind <;> rfl
    | _ => rfl

mutual

theorem bareText_map (f : α → β) : ∀ e : Expr α, bareText (e.map f) = bareText e
  | .name .. => rfl
  | .constant .. => rfl
  | .list _ items => by
    rw [Expr.map, bareText, bareText, bareTexts_map f _ items]
  | .comprehension _ kind element var source cond => by
    simp only [Expr.map, bareText, enclose_map, bareText_map f element, bareText_map f source,
      condText_map f cond]
  | .binary _ op left right => by
    simp only [Expr.map, bareText, enclose_map, bareText_map f left, bareText_map f right]
  | .unary _ op operand => by
    simp only [Expr.map, bareText, enclose_map, bareText_map f operand]
  | .logic _ op left right => by
    simp only [Expr.map, bareText, enclose_map, bareText_map f left, bareText_map f right]
  | .compare _ op left right => by
    simp only [Expr.map, bareText, enclose_map, bareText_map f left, bareText_map f right]
  | .call _ callee args => by
    simp only [Expr.map, bareText, enclose_map, bareText_map f callee, isSoleGenerator_map,
      bareTexts_map f _ args]
  | .attribute _ value attr => by
    simp only [Expr.map, bareText, enclose_map, bareText_map f value]
  | .subscript _ value index => by
    simp only [Expr.map, bareText, enclose_map, bareText_map f value, bareText_map f index]

theorem bareTexts_map (f : α → β) (least : Strength) : ∀ items : List (Expr α),
    bareTexts least (Expr.mapAll f items) = bareTexts least items
  | [] => rfl
  | e :: rest => by
    simp only [Expr.mapAll, bareTexts, enclose_map, bareText_map f e, furtherTexts_map f least rest]

theorem furtherTexts_map (f : α → β) (least : Strength) : ∀ items : List (Expr α),
    furtherTexts least (Expr.mapAll f items) = furtherTexts least items
  | [] => rfl
  | e :: rest => by
    simp only [Expr.mapAll, furtherTexts, enclose_map, bareText_map f e, furtherTexts_map f least rest]

theorem condText_map (f : α → β) : ∀ cond : Option (Expr α),
    condText (Expr.mapCond f cond) = condText cond
  | none => rfl
  | some e => by simp only [Expr.mapCond, condText, enclose_map, bareText_map f e]

end

theorem expressionText_map (f : α → β) (e : Expr α) : expressionText (e.map f) = expressionText e := by
  rw [expressionText, expressionText, enclose_map, bareText_map]

theorem orPass_map (f : α → β) (level : Nat) (body : Block α) (text : String) :
    orPass level (Block.map f body) text = orPass level body text := by
  cases body <;> rfl

mutual

theorem renderStmt_map (f : α → β) (level : Nat) : ∀ s : Stmt α,
    renderStmt level (s.map f) = renderStmt level s
  | .functionDef _ name params body => by
    simp only [Stmt.map, renderStmt, orPass_map, renderStmts_map f (level + 1) body]
  | .ret _ none => rfl
  | .ret _ (some value) => by
    simp only [Stmt.map, Option.map, renderStmt, expressionText_map]
  | .assign _ target value => by simp only [Stmt.map, renderStmt, expressionText_map]
  | .augAssign _ target op value => by simp only [Stmt.map, renderStmt, expressionText_map]
  | .forLoop _ var source body => by
    simp only [Stmt.map, renderStmt, expressionText_map, orPass_map, renderStmts_map f (level + 1) body]
  | .whileLoop _ test body => by
    simp only [Stmt.map, renderStmt, expressionText_map, orPass_map, renderStmts_map f (level + 1) body]
  | .ifElse _ test body orelse => by
    simp only [Stmt.map, renderStmt, expressionText_map, orPass_map, renderStmts_map f (level + 1) body,
      renderOrelse_map f level orelse]
  | .expr _ value => by simp only [Stmt.map, renderStmt, expressionText_map]
  | .pass _ => rfl
  | .brk _ => rfl
  | .cont _ => rfl

theorem renderStmts_map (f : α → β) (level : Nat) : ∀ body : Block α,
    renderStmts level (Block.map f body) = renderStmts level body
  | [] => rfl
  | s :: rest => by
    rw [Block.map, renderStmts, renderStmts, renderStmt_map f level s, renderStmts_map f level rest]

theorem renderOrelse_map (f : α → β) (level : Nat) : ∀ orelse : Block α,
    renderOrelse level (Block.map f orelse) = renderOrelse level orelse
  | [] => rfl
  | s :: rest => by
    have hs := renderStmt_map f (level + 1) s
    have hrest := renderStmts_map f (level + 1) rest
    have helse : indented level "else:" ++ renderStmt (level + 1) (s.map f) ++
          renderStmts (level + 1) (Block.map f rest) =
        indented level "else:" ++ renderStmt (level + 1) s ++ renderStmts (level + 1) rest := by
      rw [hs, hrest]
    cases s with
    | ifElse tag test body orelse =>
      cases rest with
      | nil =>
        simp only [Block.map, Stmt.map, renderOrelse, expressionText_map, orPass_map,
          renderStmts_map f (level + 1) body, renderOrelse_map f level orelse]
      | cons s₂ rest => exact helse
    | _ => exact helse

end

/-- The text of a program depends on its shape only. -/
theorem render_shape (body : Block α) : render (Block.shape body) = render body :=
  renderStmts_map _ 0 body

/-! ### Empty bodies -/

theorem orPass_filled (tag : α) (level : Nat) (body : Block α)
    (h : renderStmts level (Block.filled body) = renderStmts level body) :
    orPass level (Block.orPass tag (Block.filled body))
        (renderStmts level (Block.orPass tag (Block.filled body))) =
      orPass level body (renderStmts level body) := by
  cases body with
  | nil => exact String.append_empty
  | cons s rest => exact h

mutual

theorem renderStmt_filled (level : Nat) : ∀ s : Stmt α, renderStmt level s.filled = renderStmt level s
  | .functionDef tag name params body => by
    rw [Stmt.filled, renderStmt, renderStmt,
      orPass_filled tag (level + 1) body (renderStmts_filled (level + 1) body)]
  | .forLoop tag var source body => by
    rw [Stmt.filled, renderStmt, renderStmt,
      orPass_filled tag (level + 1) body (renderStmts_filled (level + 1) body)]
  | .whileLoop tag test body => by
    rw [Stmt.filled, renderStmt, renderStmt,
      orPass_filled tag (level + 1) body (renderStmts_filled (level + 1) body)]
  | .ifElse tag test body orelse => by
    rw [Stmt.filled, renderStmt, renderStmt,
      orPass_filled tag (level + 1) body (renderStmts_filled (level + 1) body),
      renderOrelse_filled level orelse]
  | .ret .. | .assign .. | .augAssign .. | .expr .. | .pass _ | .brk _ | .cont _ => rfl

theorem renderStmts_filled (level : Nat) : ∀ body : Block α,
    renderStmts level (Block.filled body) = renderStmts level body
  | [] => rfl
  | s :: rest => by
    rw [Block.filled, renderStmts, renderStmts, renderStmt_filled level s, renderStmts_filled level rest]

theorem renderOrelse_filled (level : Nat) : ∀ orelse : Block α,
    renderOrelse level (Block.filled orelse) = renderOrelse level orelse
  | [] => rfl
  | s :: rest => by
    have hs := renderStmt_filled (level + 1) s
    have hrest := renderStmts_filled (level + 1) rest
    have helse : indented level "else:" ++ renderStmt (level + 1) s.filled ++
          renderStmts (level + 1) (Block.filled rest) =
        indented level "else:" ++ renderStmt (level + 1) s ++ renderStmts (level + 1) rest := by
      rw [hs, hrest]
    cases s with
    | ifElse tag test body orelse =>
      cases rest with
      | nil =>
        simp only [Block.filled, Stmt.filled, renderOrelse, renderOrelse_filled level orelse,
          orPass_filled tag (level + 1) body (renderStmts_filled (level + 1) body)]
      | cons s₂ rest => exact helse
    | _ => exact helse

end

/-- With `pass` in its empty bodies a program has the same text. -/
theorem render_filled (body : Block α) : render (Block.filled body) = render body :=
  renderStmts_filled 0 body

/-! ### Programs -/

/-- With enough levels, the tokens of a program are read as the program. -/
theorem parseTokensWithin_run {levels : Nat} {body : Block α} (h : Block.Fits levels body)
    {ts : List Token} (hts : ts.map Token.kind = blockKinds body ++ [.endOfInput]) :
    ∃ body', parseTokensWithin levels ts = .ok body' ∧
      Block.shape body' = Block.shape (Block.filled body) := by
  obtain ⟨tsBody, last, rfl, hbodyKinds, hlast⟩ := List.map_eq_append_iff.mp hts
  obtain ⟨t, tail, rfl, ht, htail⟩ := List.map_eq_cons_iff.mp hlast
  cases List.map_eq_nil_iff.mp htail
  have hfollows : Follows [t] := ⟨t, [], rfl, by rw [ht]; rfl, by rw [ht]; rfl⟩
  have hlength : tsBody.length + 1 = (tsBody ++ [t]).length := by rw [List.length_append]; rfl
  unfold parseTokensWithin
  generalize (tsBody ++ [t]).length = bound at hlength
  have hloop : ∀ count found t ts rest s', Starts t.kind →
      statement bound (level bound levels) (t :: ts) = .ok ([s'], rest) →
        programAfter bound (level bound levels) (count + 1) found (t :: ts) =
          programAfter bound (level bound levels) count (s' :: found) rest := by
    intro count found t ts rest s' hstarts hrun
    refine (bind_run (current_cons t ts)).trans ?_
    generalize t.kind = kind at hstarts
    rcases hstarts with (⟨y, hopen⟩ | ⟨symbol, _, rfl⟩) | ⟨symbol, _, rfl⟩
    · cases kind with
      | newline => exact nomatch hopen
      | endOfInput => exact nomatch hopen
      | _ => exact bind_run hrun
    · exact bind_run hrun
    · exact bind_run hrun
  obtain ⟨count, body', hshape, hcount, hrun⟩ := stmts_run hloop body bound [] tsBody [t]
    (rebuilds_all h) hbodyKinds hfollows (by rw [List.length_append]; exact Nat.le_of_eq hlength)
    (by omega)
  obtain ⟨count, rfl⟩ : ∃ k, count = k + 1 := Nat.exists_eq_succ_of_ne_zero (by omega)
  have hend : programAfter bound (level bound levels) (count + 1) (body'.reverse ++ []) [t] =
      .ok (body', [t]) := by
    refine (bind_run (current_cons t [])).trans ?_
    rw [ht, List.append_nil]
    show Except.ok (body'.reverse.reverse, [t]) = _
    rw [List.reverse_reverse]
  refine ⟨body', ?_, hshape⟩
  show Prod.fst <$> programAfter bound (level bound levels) bound [] (tsBody ++ [t]) = _
  rw [hrun, hend]
  rfl

/-- A program that can be written down is read back from its text. -/
theorem parse_render {body : Block α} (h : Block.Fits maxNesting body) :
    ∃ body', parse (render body) = .ok body' ∧
      Block.shape body' = Block.shape (Block.filled body) := by
  obtain ⟨ts, htokens, hkinds⟩ := tokenize_render h
  obtain ⟨body', hrun, hshape⟩ := parseTokensWithin_run h hkinds
  refine ⟨body', ?_, hshape⟩
  unfold parse
  rw [htokens]
  exact hrun

/-- What is printed for a program that has been read is read as the same program, with
`pass` in empty bodies, and is printed for it again. -/
theorem parse_render_of_parse {text : String} {body : Block Line} (h : parse text = .ok body) :
    ∃ body', parse (render body) = .ok body' ∧
      Block.shape body' = Block.shape (Block.filled body) ∧ render body' = render body := by
  obtain ⟨body', hrun, hshape⟩ := parse_render (fits_of_parse h)
  refine ⟨body', hrun, hshape, ?_⟩
  calc render body'
    _ = render (Block.shape body') := (render_shape body').symm
    _ = render (Block.shape (Block.filled body)) := by rw [hshape]
    _ = render (Block.filled body) := render_shape _
    _ = render body := render_filled body

/-- A program whose operands need parentheses in some places and not in others. -/
def signs : String :=
  "def f(x):\n    if not x ** -2 < (-x) ** 1.5: x += 1\n" ++
    "    elif x: return [y for y in (x or 2)]\n"

theorem parse_render_of_parse_signs : ∃ body body', parse signs = .ok body ∧
    parse (render body) = .ok body' ∧ Block.shape body' = Block.shape (Block.filled body) ∧
      render body' = render body := by
  have hparsed : (parse signs).isOk = true := by decide +kernel
  cases h : parse signs with
  | error e =>
    rw [h] at hparsed
    cases hparsed
  | ok body =>
    obtain ⟨body', hrun⟩ := parse_render_of_parse h
    exact ⟨body, body', rfl, hrun⟩

end ProgramBreeding.Source

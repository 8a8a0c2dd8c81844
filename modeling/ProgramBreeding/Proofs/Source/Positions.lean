import ProgramBreeding.Proofs.Source.Progress

/-!
# Positions of tokens

Lines are what stands between newlines, and lines and columns count from one.  Wherever the scanner is, its line and
its column are those of the next character, so all tokens and all errors that it finds stand in the text or directly
behind a line of it.

## Main definitions

* `textLines` — the lines of a text.
* `IsPosition` — the lines and columns that stand in a text.
* `Scan.Tracks` — a position of the scanner that is that of the next character.
* `Points` — an outcome whose error stands in the text.

## Main results

* `Scan.Tracks.step` — one lexeme further the scanner still is at the next character.
* `points_tokenize` — the tokens of a text stand in it, or its first error does.
-/

namespace ProgramBreeding.Source

/-! ### Lines -/

/-- The characters of each line of a text. -/
def textLines (text : List Char) : List (List Char) := text.splitOn '\n'

theorem length_textLines (text : List Char) : (textLines text).length = text.count '\n' + 1 := by
  unfold textLines
  induction text with
  | nil => rfl
  | cons c text ih =>
    rw [List.splitOn_cons_eq_if_modifyHead, List.count_cons]
    split
    · rw [List.length_cons, ih]
    · rw [List.length_modifyHead, ih, Nat.add_zero]

/-- The first line of a text starts with what stands before the first newline. -/
theorem exists_firstLine {written : List Char} (h : '\n' ∉ written) (rest : List Char) :
    ∃ more, (textLines (written ++ rest))[0]? = some (written ++ more) := by
  unfold textLines
  by_cases hrest : '\n' ∈ rest
  · obtain ⟨more, after, rfl, hmore⟩ := List.eq_append_cons_of_mem hrest
    have hline : '\n' ∉ written ++ more := fun hmem => (List.mem_append.mp hmem).elim h hmore
    rw [← List.append_assoc, List.splitOn_append_cons_self_of_not_mem hline]
    exact ⟨more, rfl⟩
  · have hline : '\n' ∉ written ++ rest := fun hmem => (List.mem_append.mp hmem).elim h hrest
    rw [List.splitOn_eq_singleton hline]
    exact ⟨rest, rfl⟩

/-- Some whole lines, each with the newline behind it. -/
def AreLines (cs : List Char) : Prop := cs = [] ∨ ∃ before, cs = before ++ ['\n']

theorem AreLines.textLines_append {before : List Char} (h : AreLines before) (rest : List Char) :
    (textLines (before ++ rest))[before.count '\n']? = (textLines rest)[0]? := by
  rcases h with rfl | ⟨cs, rfl⟩
  · rfl
  · have hcount : (cs ++ ['\n']).count '\n' = (textLines cs).length := by
      rw [List.count_append, length_textLines]
      rfl
    rw [hcount, List.append_assoc]
    unfold textLines
    rw [List.singleton_append, List.splitOn_append_cons_self, List.getElem?_append_right (Nat.le_refl _), Nat.sub_self]

/-- The lines and columns that stand in a text or directly behind one of its lines. -/
structure IsPosition (text : List Char) (line column : Nat) : Prop where
  line_pos : 1 ≤ line
  line_le : line ≤ text.count '\n' + 1
  column_pos : 1 ≤ column
  column_le : ∃ chars, (textLines text)[line - 1]? = some chars ∧ column ≤ chars.length + 1

/-- A position in a line of which some characters are given. -/
theorem isPosition_of_written {before written rest : List Char} (hbefore : AreLines before) (hline : '\n' ∉ written)
    {column : Nat} (hpos : 1 ≤ column) (hle : column ≤ written.length + 1) :
    IsPosition (before ++ (written ++ rest)) (before.count '\n' + 1) column := by
  obtain ⟨more, hmore⟩ := exists_firstLine hline rest
  refine ⟨Nat.le_add_left 1 _, ?_, hpos, written ++ more, ?_, ?_⟩
  · rw [List.count_append]
    omega
  · rw [Nat.add_sub_cancel, hbefore.textLines_append, hmore]
  · rw [List.length_append]
    omega

theorem IsPosition.start (text : List Char) : IsPosition text 1 1 :=
  @isPosition_of_written [] [] text (.inl rfl) List.not_mem_nil 1 (Nat.le_refl 1) (Nat.le_refl 1)

theorem IsPosition.lineStart {text : List Char} {line column : Nat} (h : IsPosition text line column) :
    IsPosition text line 1 := by
  obtain ⟨chars, hchars, -⟩ := h.column_le
  exact ⟨h.line_pos, h.line_le, Nat.le_refl 1, chars, hchars, Nat.le_add_left 1 _⟩

/-! ### Outcomes -/

/-- A result that has a property, or an error that stands in the text. -/
inductive Points {α : Type} (text : List Char) (P : α → Prop) : Except ParseError α → Prop
  | ok {a : α} (h : P a) : Points text P (.ok a)
  | error {e : ParseError} (h : IsPosition text e.line e.column) : Points text P (.error e)

namespace Scan

/-! ### Places -/

/-- The position is that of the next character, and the tokens found stand in the text. -/
structure Tracks (text : List Char) (s : Scan) : Prop where
  place : ∃ before written, text = before ++ (written ++ s.rest) ∧ AreLines before ∧ '\n' ∉ written ∧
    s.line = before.count '\n' + 1 ∧ s.column = written.length + 1
  tokens : ∀ t ∈ s.tokens, IsPosition text t.line t.column

namespace Tracks

variable {text : List Char} {s : Scan}

/-- What stands in the line before the next character. -/
theorem position (h : s.Tracks text) {column : Nat} (hpos : 1 ≤ column) (hle : column ≤ s.column) :
    IsPosition text s.line column := by
  obtain ⟨before, written, rfl, hbefore, hwritten, hline, hcolumn⟩ := h.place
  rw [hline]
  exact isPosition_of_written hbefore hwritten hpos (hcolumn ▸ hle)

theorem column_pos (h : s.Tracks text) : 1 ≤ s.column := by
  obtain ⟨before, written, -, -, -, -, hcolumn⟩ := h.place
  omega

theorem here (h : s.Tracks text) : IsPosition text s.line s.column := h.position h.column_pos (Nat.le_refl _)

theorem fail {α : Type} {P : α → Prop} (h : s.Tracks text) (cause : Cause) : Points text P (s.fail cause) :=
  .error h.here

theorem emit (h : s.Tracks text) {column : Nat} (hcolumn : IsPosition text s.line column) (kind : TokenKind) :
    (s.emit kind column).Tracks text :=
  ⟨h.place, List.forall_mem_cons.mpr ⟨hcolumn, h.tokens⟩⟩

/-- Characters of a line are passed. -/
theorem advance (h : s.Tracks text) (cs : List Char) {rest : List Char} (hrest : s.rest = cs ++ rest)
    (hline : '\n' ∉ cs) :
    (s.advance cs.length rest).Tracks text := by
  obtain ⟨before, written, htext, hbefore, hwritten, hnumber, hcolumn⟩ := h.place
  refine ⟨⟨before, written ++ cs, ?_, hbefore, ?_, hnumber, ?_⟩, h.tokens⟩
  · rw [htext, hrest, List.append_assoc]
    rfl
  · exact fun hmem => (List.mem_append.mp hmem).elim hwritten hline
  · show s.column + cs.length = _
    rw [hcolumn, List.length_append]
    omega

/-- The rest of a line and its newline are passed. -/
theorem nextLine (h : s.Tracks text) (cs : List Char) {rest : List Char} (hrest : s.rest = cs ++ '\n' :: rest)
    (hline : '\n' ∉ cs) : (s.nextLine rest).Tracks text := by
  obtain ⟨before, written, htext, hbefore, hwritten, hnumber, hcolumn⟩ := h.place
  have hlines : AreLines (before ++ (written ++ cs ++ ['\n'])) := .inr ⟨before ++ (written ++ cs), by simp⟩
  refine ⟨⟨before ++ (written ++ cs ++ ['\n']), [], ?_, hlines, List.not_mem_nil, ?_, rfl⟩, h.tokens⟩
  · rw [htext, hrest]
    simp [Scan.nextLine]
  · show s.line + 1 = _
    rw [hnumber, List.count_append, List.count_append, List.count_append, List.count_eq_zero.mpr hwritten,
      List.count_eq_zero.mpr hline]
    rfl

/-! ### Indentation -/

theorem closeBlocks (width : Nat) : ∀ (indents : List Nat) {s : Scan}, s.Tracks text →
    (Scan.closeBlocks width indents s).Tracks text
  | [], _, h => ⟨h.place, h.tokens⟩
  | w :: outer, s, h => by
    unfold Scan.closeBlocks
    split
    · exact closeBlocks width outer (h.emit h.here.lineStart .dedent)
    · exact ⟨h.place, h.tokens⟩

theorem indentTo (h : s.Tracks text) (width : Nat) : Points text (Tracks text) (s.indentTo width) := by
  have hclosed := h.closeBlocks width s.indents
  unfold Scan.indentTo
  split
  · have hopened : Tracks text { s with indents := width :: s.indents } := ⟨h.place, h.tokens⟩
    exact .ok (hopened.emit h.here.lineStart .indent)
  · dsimp only
    split
    · exact .ok hclosed
    · exact hclosed.fail _

/-- The blanks of a line stand before its first other character. -/
theorem measure_split (cs : List Char) : ∀ width count : Nat, ∃ blanks, '\n' ∉ blanks ∧
    cs = blanks ++ (measure width count cs).2.2 ∧ (measure width count cs).2.1 = count + blanks.length := by
  intro width count
  fun_induction measure width count cs with
  | case1 width count rest ih | case2 width count rest ih | case3 width count rest ih =>
    obtain ⟨blanks, hline, hrest, hcount⟩ := ih
    refine ⟨_ :: blanks, ?_, congrArg (List.cons _) hrest, ?_⟩
    · exact fun hmem => (List.mem_cons.mp hmem).elim (by decide) hline
    · rw [hcount, List.length_cons]
      omega
  | case4 width count rest => exact ⟨[], List.not_mem_nil, rfl, rfl⟩

theorem spanComment_split (cs : List Char) : '\n' ∉ (spanComment cs).1 ∧
    cs = (spanComment cs).1 ++ (spanComment cs).2 := by
  refine ⟨fun hmem => ?_, List.takeWhile_append_dropWhile.symm⟩
  exact absurd (List.all_eq_true.mp List.all_takeWhile _ hmem) (by decide)

theorem indentation (h : s.Tracks text) : Points text (Tracks text) s.indentation := by
  unfold Scan.indentation
  obtain ⟨blanks, hline, hrest, hcount⟩ := measure_split s.rest 0 0
  generalize measure 0 0 s.rest = measured at hrest hcount
  obtain ⟨width, count, rest⟩ := measured
  rw [Nat.zero_add] at hcount
  have hpassed : (s.advance count rest).Tracks text := by
    rw [show count = blanks.length from hcount]
    exact h.advance blanks hrest hline
  dsimp only
  split
  · exact .ok hpassed
  · rename_i after
    exact .ok (hpassed.nextLine [] rfl List.not_mem_nil)
  · rename_i after
    exact .ok (hpassed.nextLine ['\r'] rfl (by decide))
  · rename_i cs
    obtain ⟨hcomment, hsplit⟩ := spanComment_split ('#' :: cs)
    split
    · rename_i after hafter
      rw [hafter] at hsplit
      exact .ok (hpassed.nextLine _ hsplit hcomment)
    · exact .ok (hpassed.advance _ hsplit hcomment)
  · have hstarted : Tracks text { s.advance count rest with atLineStart := false } := ⟨hpassed.place, hpassed.tokens⟩
    exact hstarted.indentTo width

/-! ### Lexemes -/

theorem newline (h : s.Tracks text) {rest : List Char} (hrest : s.rest = '\n' :: rest) :
    (s.newline rest).Tracks text := by
  have hended : (if s.depth = 0 ∧ s.lineIsOpen then s.emit .newline s.column else s).Tracks text := by
    split
    · exact h.emit h.here .newline
    · exact h
  have hsame : (if s.depth = 0 ∧ s.lineIsOpen then s.emit .newline s.column else s).rest = s.rest := by
    split <;> rfl
  have hnext := hended.nextLine [] (hsame.trans hrest) List.not_mem_nil
  exact ⟨hnext.place, hnext.tokens⟩

/-- The line goes on with some characters and then a token has been read. -/
theorem token (h : s.Tracks text) {cs rest : List Char} (hrest : s.rest = cs ++ rest) (hline : '\n' ∉ cs)
    (kind : TokenKind) : ((s.advance cs.length rest).emit kind s.column).Tracks text :=
  (h.advance cs hrest hline).emit h.here kind

theorem number (h : s.Tracks text) : Points text (Tracks text) s.number := by
  have hsplit := (spanNumber_append s.rest).symm
  have hdigits : ∀ c, isDigitPart c = true → c ≠ '\n' := fun c hc heq => by
    rw [heq] at hc
    cases hc
  have hline : '\n' ∉ (spanNumber s.rest).text := fun hmem =>
    forall_mem_spanNumber hdigits (by decide) s.rest _ hmem rfl
  unfold Scan.number
  extract_lets n after
  split
  · exact (h.advance _ hsplit hline).fail _
  · split
    · exact h.fail _
    · exact .ok (h.token hsplit hline _)

theorem word (h : s.Tracks text) : s.word.Tracks text := by
  have hline : '\n' ∉ s.rest.takeWhile Text.isWordPart := fun hmem =>
    absurd (List.all_eq_true.mp List.all_takeWhile _ hmem) (by decide)
  exact h.token List.takeWhile_append_dropWhile.symm hline _

/-- By recursion on the characters of the string: those that have been read are in the line. -/
theorem stringAfter (h : s.Tracks text) {quote : Char} {found cs : List Char} {count : Nat} : ∀ {written : List Char},
    s.rest = written ++ cs → '\n' ∉ written → written.length = count →
    Points text (fun r => r.2.Tracks text ∧ r.2.line = s.line) (s.stringAfter quote found count cs) := by
  have hfail {written cs : List Char} (hrest : s.rest = written ++ cs) (hline : '\n' ∉ written) (cause : Cause) :
      Points text (fun r : String × Scan => r.2.Tracks text ∧ r.2.line = s.line)
        ((s.advance written.length cs).fail cause) := (h.advance written hrest hline).fail cause
  have hsnoc {written cs : List Char} {c : Char} (hrest : s.rest = written ++ c :: cs) (hline : '\n' ∉ written)
      (hc : c ≠ '\n') : s.rest = (written ++ [c]) ++ cs ∧ '\n' ∉ written ++ [c] := by
    refine ⟨by rw [hrest, List.append_assoc, List.singleton_append], fun hmem => ?_⟩
    exact (List.mem_append.mp hmem).elim hline fun hmem => hc (List.mem_singleton.mp hmem).symm
  fun_induction Scan.stringAfter s quote found count cs with
  | case1 | case2 | case4 | case5 =>
    rintro written hrest hline rfl
    exact hfail hrest hline _
  | case3 found count c rest hnewline hquote =>
    rintro written hrest hline rfl
    obtain ⟨hrest, hline⟩ := hsnoc hrest hline fun heq => hnewline (beq_iff_eq.mpr heq)
    have hclosed := h.advance _ hrest hline
    rw [List.length_append] at hclosed
    exact .ok ⟨hclosed, rfl⟩
  | case6 found count c hnewline hquote hescape e after escaped hunescape ih =>
    rintro written hrest hline rfl
    obtain ⟨hrest, hline⟩ := hsnoc hrest hline fun heq => hnewline (beq_iff_eq.mpr heq)
    -- The end of the line cannot be escaped.
    obtain ⟨hrest, hline⟩ := hsnoc hrest hline fun heq => by
      rw [heq] at hunescape
      cases hunescape
    exact ih hrest hline (by simp)
  | case7 found count c rest hnewline hquote hescape ih =>
    rintro written hrest hline rfl
    obtain ⟨hrest, hline⟩ := hsnoc hrest hline fun heq => hnewline (beq_iff_eq.mpr heq)
    exact ih hrest hline (by simp)

theorem string (h : s.Tracks text) {quote : Char} {rest : List Char} (hrest : s.rest = quote :: rest)
    (hquote : quote ≠ '\n') : Points text (Tracks text) (s.string quote rest) := by
  have hline : '\n' ∉ [quote] := fun hmem => hquote (List.mem_singleton.mp hmem).symm
  have hafter : Points text (fun r => r.2.Tracks text ∧ r.2.line = s.line) (s.stringAfter quote [] 1 rest) :=
    h.stringAfter hrest hline rfl
  unfold Scan.string
  split
  · exact h.fail _
  · generalize s.stringAfter quote [] 1 rest = outcome at hafter ⊢
    cases hafter with
    | error h => exact .error h
    | ok hread =>
      obtain ⟨htracks, hsame⟩ := hread
      exact .ok (htracks.emit (hsame ▸ h.here) _)

theorem operator (h : s.Tracks text) (c : Char) : Points text (Tracks text) (s.operator c) := by
  have hspelled : ∀ op ∈ Symbol.spelledOperators, '\n' ∉ op.1 := by decide
  unfold Scan.operator
  split
  · exact h.fail _
  · rename_i spelling op hfind
    have hprefix : spelling.isPrefixOf s.rest = true :=
      List.find?_some (p := fun op : List Char × Symbol => op.1.isPrefixOf s.rest) hfind
    obtain ⟨tail, htail⟩ := List.isPrefixOf_iff_prefix.mp hprefix
    have hrest : s.rest = spelling ++ s.rest.drop spelling.length := by rw [← htail, List.drop_left]
    have htoken := h.token hrest (hspelled _ (List.mem_of_find?_eq_some hfind)) (.symbol op)
    exact .ok ⟨htoken.place, htoken.tokens⟩

theorem lexeme (h : s.Tracks text) {c : Char} {rest : List Char} (hrest : s.rest = c :: rest) :
    Points text (Tracks text) (s.lexeme c rest) := by
  unfold Scan.lexeme
  by_cases hnewline : c = '\n'
  · subst hnewline
    exact .ok (h.newline hrest)
  rw [if_neg (by simpa using hnewline)]
  have hline : '\n' ∉ [c] := fun hmem => hnewline (List.mem_singleton.mp hmem).symm
  split
  · exact .ok (h.advance [c] hrest hline)
  split
  · obtain ⟨hcomment, hsplit⟩ := spanComment_split s.rest
    exact .ok (h.advance _ hsplit hcomment)
  split
  · rename_i hjoin
    rw [Bool.and_eq_true, beq_iff_eq, beq_iff_eq] at hjoin
    obtain ⟨after, rfl⟩ := List.head?_eq_some_iff.mp hjoin.2
    exact .ok (h.nextLine [c] hrest hline)
  split
  · exact h.number
  split
  · exact .ok h.word
  split
  · exact h.string hrest hnewline
  · exact h.operator c

/-- One lexeme further the scanner still is at the next character. -/
theorem step (h : s.Tracks text) : Points text (Tracks text) s.step := by
  unfold Scan.step
  split
  · exact h.indentation
  · split
    · exact .ok h
    · rename_i hrest
      exact h.lexeme hrest

/-- By induction on the steps that may follow. -/
theorem run : ∀ (count : Nat) {s : Scan}, s.Tracks text → Points text (Tracks text) (Scan.run count s)
  | 0, _, h => .ok h
  | count + 1, s, h => by
    unfold Scan.run
    split
    · exact .ok h
    · have hstep := h.step
      generalize s.step = outcome at hstep ⊢
      cases hstep with
      | error h => exact .error h
      | ok h => exact run count h

/-- Where the text ends, the last line and all blocks do. -/
theorem finish (h : s.Tracks text) : ∀ t ∈ s.finish, IsPosition text t.line t.column := by
  unfold Scan.finish
  extract_lets ended closed
  have hended : ended.Tracks text := by
    unfold ended
    split
    · exact h
    · split
      · exact h
      · exact h
      · exact h.emit h.here .newline
  have hclosed : closed.Tracks text := hended.closeBlocks 0 ended.indents
  have hlast := hclosed.emit hclosed.here .endOfInput
  exact fun t ht => hlast.tokens t (List.mem_reverse.mp ht)

end Tracks

end Scan

/-- The tokens of a text stand in it, or its first error does. -/
theorem points_tokenize (text : String) :
    Points text.toList (fun ts => ∀ t ∈ ts, IsPosition text.toList t.line t.column) (tokenize text) := by
  have hstart : Scan.Tracks text.toList { rest := text.toList } :=
    ⟨⟨[], [], rfl, .inl rfl, List.not_mem_nil, rfl, rfl⟩, fun _ ht => absurd ht List.not_mem_nil⟩
  have hrun := Scan.Tracks.run (2 * text.toList.length) hstart
  unfold tokenize
  dsimp only
  generalize Scan.run (2 * text.toList.length) { rest := text.toList } = outcome at hrun ⊢
  cases hrun with
  | error h => exact .error h
  | ok h => exact .ok h.finish

end ProgramBreeding.Source

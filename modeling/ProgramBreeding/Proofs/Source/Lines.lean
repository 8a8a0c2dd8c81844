import ProgramBreeding.Proofs.Source.Lexing

/-!
# Printed programs as tokens

The scanner reads a printed program as the tokens of its statements: the blanks at the
starts of the lines become the ends and starts of blocks.

## Main definitions

* `ladder` — the open blocks at a level of indentation.
* `Scan.At` — the start of a line after certain tokens, with the blocks closed that are
  deeper than a level.
* `Scan.Ready` — the start of a line that may also open a block.

## Design notes

The scanner closes a block only when the next line is read, and the last blocks at the
end of the text.  `At` counts the tokens of these ends as found, so that the statements
of a block can be read one after the other.
-/

namespace ProgramBreeding.Source

open Scan

variable {α : Type}

/-- The widths of the open blocks at a level of indentation. -/
def ladder : Nat → List Nat
  | 0 => [0]
  | level + 1 => 4 * (level + 1) :: ladder level

@[simp] theorem headD_ladder (level : Nat) : (ladder level).headD 0 = 4 * level := by
  cases level <;> rfl

namespace Scan

/-- The start of a line.  With the ends of the blocks that are deeper than `level`, the
tokens are `kinds`. -/
structure At (level : Nat) (kinds : List TokenKind) (s : Scan) : Prop where
  atLineStart : s.atLineStart = true
  depth : s.depth = 0
  ended : ∀ t ∈ s.tokens.head?, t.kind = .newline
  blocks : ∃ deeper, s.indents = ladder (level + deeper) ∧
    kinds = s.kinds ++ List.replicate deeper .dedent

/-- A line at a level closes deeper blocks or opens one, and then the tokens are `kinds`. -/
def Leads (level : Nat) (kinds : List TokenKind) (s : Scan) : Prop :=
  (∃ deeper, s.indents = ladder (level + deeper) ∧
    kinds = s.kinds ++ List.replicate deeper .dedent) ∨
  ∃ outer, level = outer + 1 ∧ s.indents = ladder outer ∧ kinds = s.kinds ++ [.indent]

/-- The start of a line that stays in a block, goes back to one, or opens one. -/
structure Ready (level : Nat) (kinds : List TokenKind) (s : Scan) : Prop where
  atLineStart : s.atLineStart = true
  depth : s.depth = 0
  leads : Leads level kinds s

theorem At.ready {level : Nat} {kinds : List TokenKind} {s : Scan} (h : At level kinds s) :
    Ready level kinds s :=
  ⟨h.atLineStart, h.depth, .inl h.blocks⟩

theorem closeBlocks_ladder (level : Nat) : ∀ (deeper : Nat) (s : Scan),
    (closeBlocks (4 * level) (ladder (level + deeper)) s).indents = ladder level ∧
      (closeBlocks (4 * level) (ladder (level + deeper)) s).kinds =
        s.kinds ++ List.replicate deeper .dedent ∧
      (closeBlocks (4 * level) (ladder (level + deeper)) s).rest = s.rest ∧
      (closeBlocks (4 * level) (ladder (level + deeper)) s).depth = s.depth ∧
      (closeBlocks (4 * level) (ladder (level + deeper)) s).atLineStart = s.atLineStart
  | 0, s => by
    have hstop : closeBlocks (4 * level) (ladder level) s = { s with indents := ladder level } := by
      cases level with
      | zero => rfl
      | succ level => exact if_neg (Nat.lt_irrefl _)
    rw [Nat.add_zero, hstop]
    exact ⟨rfl, by simp [Scan.kinds], rfl, rfl, rfl⟩
  | deeper + 1, s => by
    have hclose : closeBlocks (4 * level) (ladder (level + (deeper + 1))) s =
        closeBlocks (4 * level) (ladder (level + deeper)) (s.emit .dedent 1) :=
      if_pos (show 4 * level < 4 * (level + deeper + 1) by omega)
    rw [hclose]
    obtain ⟨hindents, hkinds, hrest, hdepth, hline⟩ := closeBlocks_ladder level deeper (s.emit .dedent 1)
    refine ⟨hindents, ?_, hrest, hdepth, hline⟩
    rw [hkinds, kinds_emit, List.append_assoc]
    rfl

/-- The blanks of a line lead to its level. -/
theorem Leads.indentTo_eq {level : Nat} {kinds : List TokenKind} {s : Scan}
    (h : Leads level kinds s) : ∃ next, s.indentTo (4 * level) = .ok next ∧
      next.indents = ladder level ∧ next.kinds = kinds ∧ next.rest = s.rest ∧
      next.depth = s.depth ∧ next.atLineStart = s.atLineStart := by
  rcases h with ⟨deeper, hindents, rfl⟩ | ⟨outer, rfl, hindents, rfl⟩
  · obtain ⟨hclosed, hkinds, hrest, hdepth, hline⟩ := closeBlocks_ladder level deeper s
    refine ⟨closeBlocks (4 * level) (ladder (level + deeper)) s, ?_, hclosed, hkinds, hrest,
      hdepth, hline⟩
    unfold indentTo
    dsimp only
    rw [hindents, headD_ladder, if_neg (by omega), hclosed, headD_ladder, if_pos rfl]
  · refine ⟨{ s with indents := 4 * (outer + 1) :: s.indents }.emit .indent 1, ?_, ?_, kinds_emit _ _ _,
      rfl, rfl, rfl⟩
    · unfold indentTo
      rw [hindents, headD_ladder, if_pos (by omega)]
    · show 4 * (outer + 1) :: s.indents = _
      rw [hindents]
      rfl

theorem measure_blanks {rest : List Char} (hrest : ∀ c ∈ rest.head?, c ∉ [' ', '\t', '\x0c']) :
    ∀ count width number : Nat, measure width number (List.replicate count ' ' ++ rest) =
      (width + count, number + count, rest)
  | 0, width, number => by
    rw [List.replicate_zero, List.nil_append]
    unfold measure
    split
    · exact absurd (hrest ' ' rfl) (by decide)
    · exact absurd (hrest '\t' rfl) (by decide)
    · exact absurd (hrest '\x0c' rfl) (by decide)
    · rfl
  | count + 1, width, number => by
    rw [List.replicate_succ, List.cons_append]
    show measure (width + 1) (number + 1) (List.replicate count ' ' ++ rest) = _
    rw [measure_blanks hrest count (width + 1) (number + 1)]
    simp [Nat.add_comm, Nat.add_left_comm]

/-- The scanner reads the indentation of a line that holds something. -/
theorem Ready.indentation {level : Nat} {kinds : List TokenKind} {s : Scan}
    (h : Ready level kinds s) {text : List Char} (hbegins : Begins text)
    (hrest : s.rest = List.replicate (4 * level) ' ' ++ text) :
    ∃ next, s.indentation = .ok next ∧ next.indents = ladder level ∧ next.kinds = kinds ∧
      next.rest = text ∧ next.depth = 0 ∧ next.atLineStart = false := by
  obtain ⟨c, cs, rfl, hc⟩ := hbegins
  have hmeasure : measure 0 0 s.rest = (4 * level, 4 * level, c :: cs) := by
    rw [hrest, measure_blanks (fun d hd hmem => hc ?_)]
    · simp
    · cases hd
      have hsub : ∀ d ∈ [' ', '\t', '\x0c'],
          d ∈ ['=', '>', '/', '*', ' ', '\t', '\x0c', '\n', '\r', '#'] := by decide
      exact hsub c hmem
  let moved := { s.advance (4 * level) (c :: cs) with atLineStart := false }
  have hleads : Leads level kinds moved := h.leads
  obtain ⟨next, hnext, hindents, hkinds, hleft, hdepth, hline⟩ := hleads.indentTo_eq
  refine ⟨next, ?_, hindents, hkinds, hleft, hdepth.trans h.depth, hline⟩
  rw [← hnext]
  unfold Scan.indentation
  rw [hmeasure]
  dsimp only
  split
  · rename_i hnil
    cases hnil
  · rename_i hcons
    cases hcons
    exact absurd hc (by decide)
  · rename_i hcons
    cases hcons
    exact absurd hc (by decide)
  · rename_i hcons
    cases hcons
    exact absurd hc (by decide)
  · rfl

theorem lineIsOpen_of_kinds {s : Scan} {kinds more : List TokenKind}
    (hkinds : s.kinds = kinds ++ more) (hmore : more ≠ [])
    (hinline : ∀ kind ∈ more, isLayout kind = false) : s.lineIsOpen = true := by
  have hlast : (s.tokens.map Token.kind).head? = some (more.getLast hmore) := by
    have hend : s.kinds.getLast? = more.getLast? := by
      rw [hkinds, List.getLast?_append, List.getLast?_eq_some_getLast hmore]
      rfl
    rw [← List.getLast?_eq_some_getLast hmore, ← hend, Scan.kinds, List.getLast?_reverse]
  have hlayout := hinline _ (List.getLast_mem hmore)
  cases htokens : s.tokens with
  | nil => rw [htokens] at hlast; cases hlast
  | cons t rest =>
    rw [htokens] at hlast
    obtain ⟨kind, line, column⟩ := t
    have hkind : kind = more.getLast hmore := Option.some.inj hlast
    rw [← hkind] at hlayout
    unfold lineIsOpen
    rw [htokens]
    cases kind <;> first | rfl | cases hlayout

/-- The scanner reads a line at a level. -/
theorem Ready.line {level : Nat} {kinds more : List TokenKind} {s : Scan}
    (h : Ready level kinds s) {text : String} (htext : Legible text more) {tail : List Char}
    (hrest : s.rest = (indented level text).toList ++ tail) :
    ∃ k next, k ≤ 2 * (indented level text).toList.length ∧ Reaches k s next ∧ next.rest = tail ∧
      At level (kinds ++ more ++ [.newline]) next ∧ next.indents = ladder level := by
  have hline : (indented level text).toList = List.replicate (4 * level) ' ' ++ (text.toList ++ ['\n']) := by
    simp [indented]
  rw [hline, List.append_assoc, List.append_assoc] at hrest
  obtain ⟨first, hfirst, hindents, hkinds, hleft, hdepth, hstart⟩ :=
    h.indentation (htext.begins.append _) hrest
  obtain ⟨k, last, hk, hreach, hpass⟩ :=
    htext.lexes first _ hleft hstart (ends_cons (by decide) tail)
  have hdepth' : last.depth = 0 := by rw [hpass.depth, htext.balanced.depth, hdepth]
  have hkinds' : last.kinds = kinds ++ more := by rw [hpass.kinds, hkinds]
  have hopen := lineIsOpen_of_kinds hkinds' htext.nonempty htext.balanced.inline
  have hne : s.rest ≠ [] := by
    rw [hrest]
    simp
  have hindentation : s.step = .ok first := by
    unfold Scan.step
    rw [h.atLineStart, if_pos rfl, hfirst]
  have hnewline : last.step = .ok (last.newline tail) := by
    unfold Scan.step
    rw [hpass.atLineStart, hstart, hpass.rest]
    rfl
  have hended : last.newline tail =
      { (last.emit .newline last.column).nextLine tail with atLineStart := true } := by
    unfold Scan.newline
    rw [if_pos ⟨hdepth', hopen⟩, hdepth']
    rfl
  refine ⟨1 + (k + 1), last.newline tail, ?_, ?_, ?_, ?_, ?_⟩
  · rw [hline]
    simp only [List.length_append, List.length_replicate, List.length_cons, List.length_nil]
    omega
  · exact (Reaches.one hne hindentation).trans
      (hreach.trans (.one (by rw [hpass.rest]; exact List.cons_ne_nil _ _) hnewline))
  · rw [hended]
    rfl
  · refine ⟨by rw [hended], by rw [hended]; exact hdepth', fun t ht => ?_, 0, ?_, ?_⟩
    · rw [hended] at ht
      cases ht
      rfl
    · rw [hended]
      exact hpass.indents.trans hindents
    · rw [hended, ← hkinds', ← kinds_emit last .newline last.column]
      simp [Scan.kinds, nextLine]
  · rw [hended]
    exact hpass.indents.trans hindents

end Scan

/-! ### Lines and blocks -/

/-- Text that is read as the given tokens after the start of a line that may open a block. -/
def Prints (level : Nat) (text : String) (kinds : List TokenKind) : Prop :=
  ∀ (before : List TokenKind) (s : Scan) (tail : List Char), Ready level before s →
    s.rest = text.toList ++ tail →
      ∃ k next, k ≤ 2 * text.toList.length ∧ Reaches k s next ∧ next.rest = tail ∧
        At level (before ++ kinds) next

/-- Text that is read as the given tokens after the start of a line inside a block. -/
def Continues (level : Nat) (text : String) (kinds : List TokenKind) : Prop :=
  ∀ (before : List TokenKind) (s : Scan) (tail : List Char), At level before s →
    s.rest = text.toList ++ tail →
      ∃ k next, k ≤ 2 * text.toList.length ∧ Reaches k s next ∧ next.rest = tail ∧
        At level (before ++ kinds) next

section Blocks

variable {level : Nat} {text more : String} {kinds moreKinds : List TokenKind}

theorem Prints.continues (h : Prints level text kinds) : Continues level text kinds :=
  fun before s tail hat hrest => h before s tail hat.ready hrest

theorem Continues.nil : Continues level "" [] := by
  intro before s tail hat hrest
  exact ⟨0, s, Nat.zero_le _, .refl s, hrest, by rwa [List.append_nil]⟩

theorem Prints.append (h : Prints level text kinds) (hmore : Continues level more moreKinds) :
    Prints level (text ++ more) (kinds ++ moreKinds) := by
  intro before s tail hready hrest
  rw [String.toList_append, List.append_assoc] at hrest
  obtain ⟨j, between, hj, hreach, hleft, hat⟩ := h _ _ _ hready hrest
  obtain ⟨k, next, hk, hreach', hleft', hat'⟩ := hmore _ _ _ hat hleft
  refine ⟨j + k, next, ?_, hreach.trans hreach', hleft', by rwa [List.append_assoc] at hat'⟩
  rw [String.toList_append, List.length_append]
  omega

theorem prints_line (level : Nat) (h : Legible text kinds) :
    Prints level (indented level text) (kinds ++ [.newline]) := by
  intro before s tail hready hrest
  obtain ⟨k, next, hk, hreach, hleft, hat, -⟩ := hready.line h hrest
  exact ⟨k, next, hk, hreach, hleft, by rwa [List.append_assoc] at hat⟩

theorem Scan.At.kinds_eq {s : Scan} (h : At level kinds s) (hindents : s.indents = ladder level) :
    kinds = s.kinds := by
  obtain ⟨deeper, hladder, hkinds⟩ := h.blocks
  have hwidth := congrArg (·.headD 0) (hindents.symm.trans hladder)
  simp only [headD_ladder] at hwidth
  have hsame : deeper = 0 := by omega
  rw [hkinds, hsame, List.replicate_zero, List.append_nil]

/-- The end of a block counts as found as soon as the block is left. -/
theorem Scan.At.close {s : Scan} (h : At (level + 1) kinds s) : At level (kinds ++ [.dedent]) s := by
  obtain ⟨deeper, hindents, hkinds⟩ := h.blocks
  refine ⟨h.atLineStart, h.depth, h.ended, deeper + 1, ?_, ?_⟩
  · rw [hindents, Nat.add_right_comm, Nat.add_assoc]
  · rw [hkinds, List.append_assoc, List.replicate_succ']

/-- A line with a block after it. -/
theorem prints_block (level : Nat) (h : Legible text kinds) (hbody : Prints (level + 1) more moreKinds) :
    Prints level (indented level text ++ more)
      (kinds ++ .newline :: .indent :: (moreKinds ++ [.dedent])) := by
  intro before s tail hready hrest
  rw [String.toList_append, List.append_assoc] at hrest
  obtain ⟨j, between, hj, hreach, hleft, hat, hindents⟩ := hready.line h hrest
  have hinner : Ready (level + 1) (before ++ kinds ++ [.newline] ++ [.indent]) between := by
    refine ⟨hat.atLineStart, hat.depth, .inr ⟨level, rfl, hindents, ?_⟩⟩
    rw [hat.kinds_eq hindents]
  obtain ⟨k, next, hk, hreach', hleft', hat'⟩ := hbody _ _ _ hinner hleft
  refine ⟨j + k, next, ?_, hreach.trans hreach', hleft', ?_⟩
  · rw [String.toList_append, List.length_append]
    omega
  · simpa using hat'.close

end Blocks

/-! ### Headers -/

/-- A word before something else. -/
theorem Legible.afterWord {text : String} {kinds : List TokenKind} (h : Readable text kinds)
    (keyword : Symbol) (hkeyword : keyword ∈ Symbol.keywords) :
    Legible (keyword.spelling ++ " " ++ text) (.symbol keyword :: kinds) where
  lexes := by
    have hword : Lexes (fun _ => True) (keyword.spelling.toList ++ [' ']) [.symbol keyword] :=
      (lexes_keyword keyword hkeyword).append lexes_space fun tail _ => ends_cons (by decide) tail
    simpa using hword.append h.lexes fun _ _ => trivial
  balanced := (balanced_keyword hkeyword).cons h.balanced
  begins := by
    simp only [String.toList_append]
    exact ((legible_keyword keyword hkeyword).begins.append _).append _
  nonempty := List.cons_ne_nil _ _

theorem Legible.colon {text : String} {kinds : List TokenKind} (h : Legible text kinds) :
    Legible (text ++ ":") (kinds ++ [.symbol .colon]) :=
  h.followed ⟨lexes_colon Ends, .single (fun _ => rfl) rfl⟩ fun tail _ => ends_cons (by decide) tail

theorem readable_params : ∀ {params : List String}, (∀ param ∈ params, IsIdentifier param) →
    Readable (", ".intercalate params) (paramKinds params)
  | [], _ => .nil
  | [param], h => by
    rw [String.intercalate_singleton]
    exact (legible_name (h param List.mem_cons_self)).toReadable
  | param :: param' :: rest, h => by
    rw [String.intercalate_cons_cons]
    have hrest := (readable_params (List.forall_mem_cons.mp h).2).afterComma
    have hall := (legible_name (h param List.mem_cons_self)).toReadable.append hrest fun tail _ => by
      rw [String.toList_append]
      exact ends_cons (by decide) _
    show Readable _ ([.name param] ++ .symbol .comma :: paramKinds (param' :: rest))
    simpa only [String.append_assoc] using hall

/-! ### Statements -/

/-- The alternative of a conditional is missing, one conditional, or a block. -/
theorem isChained_cases (orelse : Block α) : orelse = [] ∨
    (∃ tag test body rest, orelse = [.ifElse tag test body rest]) ∨
    ∃ s rest, orelse = s :: rest ∧ isChained orelse = false ∧
      ∀ level, renderOrelse level orelse =
        indented level "else:" ++ renderStmts (level + 1) orelse := by
  match orelse with
  | [] => exact .inl rfl
  | [.ifElse tag test body rest] => exact .inr (.inl ⟨tag, test, body, rest, rfl⟩)
  | .ifElse .. :: _ :: _ | .functionDef .. :: _ | .ret .. :: _ | .assign .. :: _ | .augAssign .. :: _
  | .forLoop .. :: _ | .whileLoop .. :: _ | .expr .. :: _ | .pass _ :: _ | .brk _ :: _
  | .cont _ :: _ =>
    exact .inr (.inr ⟨_, _, rfl, rfl, fun _ => String.append_assoc⟩)

/-- The header of a compound statement, given what follows its keyword. -/
theorem legible_header {keyword : Symbol} (hkeyword : keyword ∈ Symbol.keywords) {word text : String}
    (hword : word = keyword.spelling ++ " ") {kinds : List TokenKind} (h : Readable text kinds) :
    Legible (word ++ text ++ ":") (.symbol keyword :: (kinds ++ [.symbol .colon])) := by
  rw [hword]
  exact (Legible.afterWord h keyword hkeyword).colon

theorem legible_functionHeader {name : String} {params : List String} (hname : IsIdentifier name)
    (hparams : ∀ param ∈ params, IsIdentifier param) :
    Legible ("def " ++ name ++ "(" ++ ", ".intercalate params ++ "):")
      (.symbol .kwDef :: .name name :: .symbol .leftParen ::
        (paramKinds params ++ [.symbol .rightParen, .symbol .colon])) := by
  have hcall := (legible_name hname).followed (readable_params hparams).parenthesized.toReadable
    fun tail _ => by
      simp only [String.toList_append]
      exact ends_cons (by decide) _
  have hall := legible_header (by decide) (show "def " = Symbol.kwDef.spelling ++ " " by decide)
    hcall.toReadable
  have hclose : "):" = ")" ++ ":" := by decide
  rw [hclose]
  simpa [String.append_assoc] using hall

theorem legible_forHeader {var source : String} {kinds : List TokenKind} (hvar : IsIdentifier var)
    (hsource : Readable source kinds) :
    Legible ("for " ++ var ++ " in " ++ source ++ ":")
      (.symbol .kwFor :: .name var :: .symbol .kwIn :: (kinds ++ [.symbol .colon])) := by
  have hloop := (legible_name hvar).followed (hsource.afterKeyword .kwIn (by decide)) fun tail _ => by
    simp only [String.toList_append]
    exact ends_cons (by decide) _
  have hall := legible_header (by decide) (show "for " = Symbol.kwFor.spelling ++ " " by decide)
    hloop.toReadable
  have hin : " in " = " " ++ Symbol.kwIn.spelling ++ " " := by decide
  rw [hin]
  simpa [String.append_assoc] using hall

theorem legible_assign {target value : String} {kinds kinds' : List TokenKind}
    (htarget : Legible target kinds) (hvalue : Readable value kinds') :
    Legible (target ++ " = " ++ value) (kinds ++ .symbol .eq :: kinds') := by
  have hall := htarget.infix hvalue (lexes_spaced .eq (.inl (by decide))) (.single (fun _ => rfl) rfl)
  have hsign : " = " = " " ++ Symbol.eq.spelling ++ " " := by decide
  show Legible _ (kinds ++ ([.symbol .eq] ++ kinds'))
  rw [hsign]
  simpa only [String.append_assoc] using hall

theorem legible_augAssign {op : BinaryOp} (hop : op ≠ .pow) {target value : String}
    {kinds kinds' : List TokenKind} (htarget : Legible target kinds)
    (hvalue : Readable value kinds') :
    Legible (target ++ " " ++ op.symbol ++ "= " ++ value)
      (kinds ++ .symbol (augmentedSymbol op) :: kinds') := by
  have hspelling : (augmentedSymbol op).spelling = op.symbol ++ "=" := by
    cases op <;> first | rfl | exact absurd rfl hop
  have hopen : augmentedSymbol op ∈ openOperators := by cases op <;> decide
  have hall := htarget.infix hvalue (lexes_spaced (augmentedSymbol op) (.inl hopen))
    (by cases op <;> exact .single (fun _ => rfl) rfl)
  rw [hspelling] at hall
  have hsign : "= " = "=" ++ " " := by decide
  show Legible _ (kinds ++ ([.symbol (augmentedSymbol op)] ++ kinds'))
  rw [hsign]
  simpa only [String.append_assoc] using hall

mutual

/-- The text of a statement is read as its tokens. -/
theorem prints_stmt : ∀ {s : Stmt α} {n level : Nat}, s.Fits n →
    Prints level (renderStmt level s) (stmtKinds s)
  | .functionDef _ name params body, _, level, h => by
    have hblock := prints_block level (legible_functionHeader h.1 h.2.1)
      (prints_suite h.2.2.2.2)
    simpa [renderStmt, stmtKinds, suiteKinds] using hblock
  | .ret _ none, _, _, _ => prints_line _ (legible_keyword .kwReturn (by decide))
  | .ret _ (some value), _, level, h =>
    prints_line _ (Legible.afterWord (legible_expressionText (h value rfl)).toReadable .kwReturn (by decide))
  | .assign _ target value, _, level, h => by
    have hline := prints_line level (legible_assign (legible_expressionText h.2.1)
      (legible_expressionText h.2.2).toReadable)
    simpa [renderStmt, stmtKinds] using hline
  | .augAssign _ target op value, _, level, h => by
    have hline := prints_line level (legible_augAssign h.2.1 (legible_expressionText h.2.2.1)
      (legible_expressionText h.2.2.2).toReadable)
    simpa [renderStmt, stmtKinds] using hline
  | .forLoop _ var source body, _, level, h => by
    have hblock := prints_block level
      (legible_forHeader h.1 (legible_expressionText h.2.1).toReadable) (prints_suite h.2.2)
    simpa [renderStmt, stmtKinds, suiteKinds] using hblock
  | .whileLoop _ test body, _, level, h => by
    have hblock := prints_block level
      (legible_header (by decide) (show "while " = Symbol.kwWhile.spelling ++ " " by decide)
        (legible_expressionText h.1).toReadable)
      (prints_suite h.2)
    simpa [renderStmt, stmtKinds, suiteKinds] using hblock
  | .ifElse _ test body orelse, _, level, h => by
    have hblock := prints_block level
      (legible_header (by decide) (show "if " = Symbol.kwIf.spelling ++ " " by decide)
        (legible_expressionText h.1).toReadable)
      (prints_suite h.2.1)
    have hall := hblock.append (continues_orelse h.2.2)
    simpa [renderStmt, stmtKinds, suiteKinds] using hall
  | .expr _ value, _, level, h => prints_line _ (legible_expressionText h)
  | .pass _, _, _, _ => prints_line _ (legible_keyword .kwPass (by decide))
  | .brk _, _, _, _ => prints_line _ (legible_keyword .kwBreak (by decide))
  | .cont _, _, _, _ => prints_line _ (legible_keyword .kwContinue (by decide))

theorem continues_stmts : ∀ {body : Block α} {n level : Nat}, Block.Fits n body →
    Continues level (renderStmts level body) (blockKinds body)
  | [], _, _, _ => .nil
  | s :: rest, _, _, h =>
    ((prints_stmt h.1).append (continues_stmts h.2)).continues

theorem prints_suite {body : Block α} {n level : Nat} (h : Block.Fits n body) :
    Prints level (orPass level body (renderStmts level body))
      (if body.isEmpty then [.symbol .kwPass, .newline] else blockKinds body) := by
  cases body with
  | nil => exact prints_line _ (legible_keyword .kwPass (by decide))
  | cons s rest => exact (prints_stmt h.1).append (continues_stmts h.2)

theorem continues_orelse {orelse : Block α} {n level : Nat}
    (h : Block.Fits (if isChained orelse then n else n - 1) orelse) :
    Continues level (renderOrelse level orelse) (orelseKinds orelse (blockKinds orelse)) := by
  rcases isChained_cases orelse with rfl | ⟨tag, test, body, rest, rfl⟩ | ⟨s, rest, rfl, hchained, htext⟩
  · exact .nil
  · obtain ⟨⟨htest, hbody, hrest⟩, -⟩ := h
    have hblock := prints_block level
      (legible_header (by decide) (show "elif " = Symbol.kwElif.spelling ++ " " by decide)
        (legible_expressionText htest).toReadable)
      (prints_suite hbody)
    have hall := (hblock.append (continues_orelse hrest)).continues
    simpa [renderOrelse, orelseKinds, isChained, blockKinds, stmtKinds, suiteKinds] using hall
  · rw [hchained] at h
    have hblock := prints_block level (legible_keyword .kwElse (by decide)).colon
      ((prints_stmt h.1).append (continues_stmts h.2))
    have helse : "else:" = Symbol.kwElse.spelling ++ ":" := by decide
    rw [htext, orelseKinds, hchained, helse]
    simpa [renderStmts, blockKinds] using hblock.continues

end

/-! ### Programs -/

theorem run_of_rest_nil {s : Scan} (h : s.rest = []) : ∀ n, run n s = .ok s
  | 0 => rfl
  | n + 1 => by
    unfold Scan.run
    rw [h]

theorem finish_kinds {s : Scan} {kinds : List TokenKind} (h : At 0 kinds s) :
    s.finish.map Token.kind = kinds ++ [.endOfInput] := by
  obtain ⟨deeper, hindents, hkinds⟩ := h.blocks
  obtain ⟨-, hclosed, -⟩ := closeBlocks_ladder 0 deeper s
  unfold Scan.finish
  extract_lets ended closed
  have hended : ended = s := by
    unfold ended
    split
    · rfl
    · rename_i kind _ _ _ htokens
      have hnewline : kind = .newline := h.ended _ (by rw [htokens]; rfl)
      rw [hnewline]
  have hkinds' : closed.kinds = kinds := by
    unfold closed
    rw [hended, hindents, hkinds]
    exact hclosed
  rw [← hkinds', ← kinds_emit closed .endOfInput closed.column, Scan.kinds, List.map_reverse]

/-- The text of a program that can be written down is read as the tokens of the program. -/
theorem tokenize_render {body : Block α} {n : Nat} (h : Block.Fits n body) :
    ∃ ts, tokenize (render body) = .ok ts ∧
      ts.map Token.kind = blockKinds body ++ [.endOfInput] := by
  let start : Scan := { rest := (render body).toList }
  have hstart : At 0 [] start := ⟨rfl, rfl, nofun, 0, rfl, rfl⟩
  obtain ⟨k, last, hk, hreach, hrest, hat⟩ :=
    continues_stmts h [] start [] hstart (List.append_nil _).symm
  refine ⟨last.finish, ?_, finish_kinds hat⟩
  have hrun : run (2 * (render body).toList.length) start = .ok last := by
    have hlength : 2 * (render body).toList.length = 2 * (render body).toList.length - k + k :=
      (Nat.sub_add_cancel hk).symm
    rw [hlength, hreach.run_eq, run_of_rest_nil hrest]
  unfold tokenize
  dsimp only
  rw [hrun]

end ProgramBreeding.Source

import ProgramBreeding.Proofs.Source.Progress

/-!
# Blocks and brackets in the tokens of a text

Indentation is read outside of brackets only, and the widths of the open blocks are kept on a stack.  So the starts and
the ends of blocks match like brackets, and the blocks that are open where the text ends are closed there.

## Main definitions

* `openBlocks`, `openBrackets` — the blocks and the brackets that some tokens leave open.
* `WellBracketed` — how the tokens of a whole text match.
* `Stacked` — widths that are those of the open blocks.
* `Laid` — tokens each of which may follow those before it.
* `Scan.Orderly` — a position whose tokens and widths fit each other.

## Main results

* `Scan.Orderly.step` — one lexeme further they still do.
* `Laid.wellBracketed` — such tokens match as soon as the open blocks are closed.
* `wellBracketed_of_tokenize` — the tokens of a text match, and the widths fit the tokens all the way.
-/

namespace ProgramBreeding.Source

open Scan

/-! ### Open blocks and brackets -/

/-- Whether a token starts a block. -/
def TokenKind.opensBlock : TokenKind → Bool
  | .indent => true
  | _ => false

/-- Whether a token ends a block. -/
def TokenKind.closesBlock : TokenKind → Bool
  | .dedent => true
  | _ => false

/-- The number of blocks that some tokens start, less the number of those that they end. -/
def openBlocks (kinds : List TokenKind) : Int :=
  kinds.countP TokenKind.opensBlock - kinds.countP TokenKind.closesBlock

/-- Whether a token is an opening bracket. -/
def TokenKind.opensBracket : TokenKind → Bool
  | .symbol .leftParen | .symbol .leftBracket | .symbol .leftBrace => true
  | _ => false

/-- Whether a token is a closing bracket. -/
def TokenKind.closesBracket : TokenKind → Bool
  | .symbol .rightParen | .symbol .rightBracket | .symbol .rightBrace => true
  | _ => false

/-- The number of open brackets after one more token.  A closing bracket closes one, if one is open. -/
def bracketsAfter (count : Nat) (kind : TokenKind) : Nat :=
  if kind.opensBracket then count + 1 else if kind.closesBracket then count - 1 else count

/-- The number of brackets that some tokens leave open. -/
def openBrackets (kinds : List TokenKind) : Nat := kinds.foldl bracketsAfter 0

/-- How the tokens of a whole text match. -/
structure WellBracketed (kinds : List TokenKind) : Prop where
  /-- The end of the text is the last token, and it is no other one. -/
  ended : ∃ found, kinds = found ++ [.endOfInput] ∧ .endOfInput ∉ found
  /-- No tokens that the text begins with end more blocks than they start. -/
  opened : ∀ before, before <+: kinds → 0 ≤ openBlocks before
  /-- Every block is ended. -/
  closed : openBlocks kinds = 0
  /-- Blocks start and end outside of brackets, except that those that are open where the text ends are ended there. -/
  outside : ∀ before kind after, kinds = before ++ kind :: after → kind.opensBlock ∨ kind.closesBlock →
    openBrackets before = 0 ∨ kind = .dedent ∧ ∀ later ∈ after, later = .dedent ∨ later = .endOfInput
  /-- No end of a line follows another one directly. -/
  newlines : ∀ before after, kinds ≠ before ++ .newline :: .newline :: after

/-- The widths of the blocks that some tokens leave open, the innermost first: they go up from zero, the width of what
is in no block. -/
structure Stacked (indents : List Nat) (kinds : List TokenKind) : Prop where
  increasing : indents.Pairwise fun inner outer => outer < inner
  outermost : indents.getLast? = some 0
  length : (indents.length : Int) = openBlocks kinds + 1

section

variable {kinds : List TokenKind} {kind : TokenKind}

theorem openBlocks_append (kinds more : List TokenKind) :
    openBlocks (kinds ++ more) = openBlocks kinds + openBlocks more := by
  unfold openBlocks
  rw [List.countP_append, List.countP_append]
  omega

theorem openBlocks_concat_of_not (hopens : kind.opensBlock = false) (hcloses : kind.closesBlock = false) :
    openBlocks (kinds ++ [kind]) = openBlocks kinds := by
  rw [openBlocks_append]
  simp [openBlocks, hopens, hcloses]

theorem openBlocks_indent (kinds : List TokenKind) : openBlocks (kinds ++ [.indent]) = openBlocks kinds + 1 :=
  openBlocks_append kinds [.indent]

theorem openBlocks_dedents (kinds : List TokenKind) (count : Nat) :
    openBlocks (kinds ++ List.replicate count .dedent) = openBlocks kinds - count := by
  have hdedents : openBlocks (List.replicate count .dedent) = -count := by
    simp [openBlocks, List.countP_replicate, TokenKind.opensBlock, TokenKind.closesBlock]
  rw [openBlocks_append, hdedents, Int.sub_eq_add_neg]

/-- The scanner counts brackets as they are open. -/
theorem kindDepth_eq (depth : Nat) (kind : TokenKind) : kindDepth depth kind = bracketsAfter depth kind := by
  cases kind with
  | symbol symbol => cases symbol <;> rfl
  | _ => rfl

theorem openBrackets_concat (kinds : List TokenKind) (kind : TokenKind) :
    openBrackets (kinds ++ [kind]) = bracketsAfter (openBrackets kinds) kind :=
  List.foldl_concat ..

theorem openBrackets_dedents (kinds : List TokenKind) (count : Nat) :
    openBrackets (kinds ++ List.replicate count .dedent) = openBrackets kinds := by
  induction count with
  | zero => rw [List.replicate_zero, List.append_nil]
  | succ count ih =>
    rw [List.replicate_succ', ← List.append_assoc, openBrackets_concat, ih]
    rfl

/-- What is found where a text ends: the ends of some blocks, and that of the text. -/
def closing (count : Nat) : List TokenKind := List.replicate count TokenKind.dedent ++ [TokenKind.endOfInput]

theorem mem_closing {count : Nat} (h : kind ∈ closing count) : kind = .dedent ∨ kind = .endOfInput :=
  (List.mem_append.mp h).imp List.eq_of_mem_replicate List.mem_singleton.mp

theorem countP_closing (count : Nat) : (closing count).countP TokenKind.closesBlock = count := by
  simp [closing, List.countP_replicate, TokenKind.closesBlock]

theorem openBlocks_closing (kinds : List TokenKind) (count : Nat) :
    openBlocks (kinds ++ closing count) = openBlocks kinds - count := by
  rw [closing, ← List.append_assoc, openBlocks_concat_of_not rfl rfl, openBlocks_dedents]

end

namespace Stacked

variable {indents : List Nat} {kinds : List TokenKind} {kind : TokenKind}

/-- Tokens that neither start nor end a block. -/
theorem concat (h : Stacked indents kinds) (hopens : kind.opensBlock = false) (hcloses : kind.closesBlock = false) :
    Stacked indents (kinds ++ [kind]) :=
  ⟨h.increasing, h.outermost, by rw [openBlocks_concat_of_not hopens hcloses, h.length]⟩

/-- A block is started inside all others. -/
theorem indent (h : Stacked indents kinds) {width : Nat} (hwidth : indents.headD 0 < width) :
    Stacked (width :: indents) (kinds ++ [.indent]) where
  increasing := by
    refine List.pairwise_cons.mpr ⟨fun outer houter => ?_, h.increasing⟩
    cases indents with
    | nil => cases houter
    | cons w indents =>
      rcases List.mem_cons.mp houter with rfl | houter
      · exact hwidth
      · exact Nat.lt_trans (List.rel_of_pairwise_cons h.increasing houter) hwidth
  outermost := by rw [List.getLast?_cons, h.outermost, Option.getD_some]
  length := by
    have hlength := h.length
    rw [openBlocks_indent, List.length_cons]
    omega

/-- Some blocks are ended, the innermost first. -/
theorem close (h : Stacked indents kinds) {count : Nat} (hcount : count < indents.length) :
    Stacked (indents.drop count) (kinds ++ List.replicate count .dedent) where
  increasing := h.increasing.drop
  outermost := by rw [List.getLast?_drop, if_neg (Nat.not_le.mpr hcount), h.outermost]
  length := by
    have hlength := h.length
    rw [openBlocks_dedents, List.length_drop]
    omega

/-- Only what is in no block has no width. -/
theorem openBlocks_eq_zero (h : Stacked indents kinds) (hwidth : indents.headD 0 = 0) : openBlocks kinds = 0 := by
  have hlength := h.length
  have houtermost := h.outermost
  have hincreasing := h.increasing
  match indents with
  | [] => cases houtermost
  | [w] => rw [List.length_singleton] at hlength; omega
  | w :: outer :: indents =>
    have hlt := List.rel_of_pairwise_cons hincreasing (List.mem_cons_self ..)
    rw [show w = 0 from hwidth] at hlt
    exact absurd hlt (Nat.not_lt_zero _)

end Stacked

/-! ### Tokens in order -/

/-- A token that may follow some others before the end of a text. -/
structure MayFollow (before : List TokenKind) (kind : TokenKind) : Prop where
  last : kind ≠ .endOfInput
  once : kind = .newline → before.getLast? ≠ some .newline
  outside : kind.opensBlock ∨ kind.closesBlock → openBrackets before = 0
  closes : kind.closesBlock → 0 < openBlocks before

theorem MayFollow.newline {before : List TokenKind} (h : before.getLast? ≠ some .newline) : MayFollow before .newline :=
  ⟨by simp, fun _ => h, by simp [TokenKind.opensBlock, TokenKind.closesBlock], by simp [TokenKind.closesBlock]⟩

theorem opensBlock_closesBlock_of_not_isLayout {kind : TokenKind} (h : isLayout kind = false) :
    kind.opensBlock = false ∧ kind.closesBlock = false := by
  cases kind <;> simp_all [isLayout, TokenKind.opensBlock, TokenKind.closesBlock]

/-- What stands in a line may follow everything. -/
theorem MayFollow.lexeme {before : List TokenKind} {kind : TokenKind} (hkind : isLayout kind = false)
    (hlast : kind ≠ .endOfInput) : MayFollow before kind := by
  obtain ⟨hopens, hcloses⟩ := opensBlock_closesBlock_of_not_isLayout hkind
  refine ⟨hlast, ?_, by simp [hopens, hcloses], by simp [hcloses]⟩
  rintro rfl
  cases hkind

/-- Tokens each of which may follow those before it. -/
def Laid (kinds : List TokenKind) : Prop :=
  ∀ before kind after, kinds = before ++ kind :: after → MayFollow before kind

namespace Laid

variable {kinds : List TokenKind} {kind : TokenKind}

theorem nil : Laid [] := fun before kind after h => by simp at h

theorem concat (h : Laid kinds) (hkind : MayFollow kinds kind) : Laid (kinds ++ [kind]) := by
  intro before found after hsplit
  rcases List.eq_nil_or_concat' after with rfl | ⟨after, last, rfl⟩
  · obtain ⟨rfl, hlast⟩ := List.append_inj' hsplit rfl
    cases hlast
    exact hkind
  · rw [← List.cons_append, ← List.append_assoc] at hsplit
    exact h before found after (List.append_inj' hsplit rfl).1

theorem of_prefix (h : Laid kinds) {before : List TokenKind} (hbefore : before <+: kinds) : Laid before := by
  obtain ⟨after, rfl⟩ := hbefore
  intro first kind rest hsplit
  exact h first kind (rest ++ after) (by rw [hsplit, List.append_assoc, List.cons_append])

/-- By induction on the tokens: no block is ended that is not open. -/
theorem openBlocks_nonneg (h : Laid kinds) : 0 ≤ openBlocks kinds := by
  induction kinds using List.reverseRecOn with
  | nil => exact Int.le_refl 0
  | append_singleton kinds kind ih =>
    have hbefore := ih (h.of_prefix (List.prefix_append ..))
    have hopen := (h kinds kind [] rfl).closes
    rw [openBlocks_append]
    cases kind with
    | dedent =>
      have hpos := hopen rfl
      show 0 ≤ openBlocks kinds + -1
      omega
    | indent =>
      show 0 ≤ openBlocks kinds + 1
      omega
    | _ => exact Int.add_nonneg hbefore (Int.le_refl 0)

/-- Outside of brackets open blocks may be ended. -/
theorem close (h : Laid kinds) (hbrackets : openBrackets kinds = 0) : ∀ {count : Nat},
    (count : Int) ≤ openBlocks kinds → Laid (kinds ++ List.replicate count .dedent)
  | 0, _ => by rwa [List.replicate_zero, List.append_nil]
  | count + 1, hcount => by
    rw [List.replicate_succ', ← List.append_assoc]
    refine (h.close hbrackets (by omega)).concat ⟨by simp, by simp, fun _ => ?_, fun _ => ?_⟩
    · rw [openBrackets_dedents, hbrackets]
    · rw [openBlocks_dedents]
      omega

/-- A token of some tokens that are followed by others is one of the first, with all those before it, or one of the
others, like all those after it. -/
theorem split_append {found tail before after : List TokenKind} (h : found ++ tail = before ++ kind :: after) :
    (∃ rest, found = before ++ kind :: rest) ∨ kind ∈ tail ∧ ∀ later ∈ after, later ∈ tail := by
  rcases List.append_eq_append_iff.mp h with ⟨more, rfl, rfl⟩ | ⟨rest, rfl, hrest⟩
  · exact .inr ⟨by simp, fun later hlater => by simp [hlater]⟩
  · cases rest with
    | nil =>
      obtain rfl : kind :: after = tail := hrest
      exact .inr ⟨List.mem_cons_self .., fun later hlater => List.mem_cons_of_mem _ hlater⟩
    | cons first rest =>
      cases hrest
      exact .inl ⟨rest, rfl⟩

/-- While the open blocks are ended, no block is ended that is not open. -/
theorem openBlocks_prefix_nonneg (h : Laid kinds) {count : Nat} (hcount : openBlocks kinds = count)
    {before : List TokenKind} (hbefore : before <+: kinds ++ closing count) : 0 ≤ openBlocks before := by
  rcases List.prefix_or_prefix_of_prefix hbefore (List.prefix_append kinds _) with hfound | ⟨ends, rfl⟩
  · exact (h.of_prefix hfound).openBlocks_nonneg
  · have hends := ((List.prefix_append_right_inj kinds).mp hbefore).sublist.countP_le (p := TokenKind.closesBlock)
    rw [countP_closing] at hends
    rw [openBlocks_append, hcount, openBlocks]
    omega

/-- Tokens in order match as soon as the open blocks are ended. -/
theorem wellBracketed (h : Laid kinds) {count : Nat} (hcount : openBlocks kinds = count) :
    WellBracketed (kinds ++ closing count) where
  ended := by
    refine ⟨kinds ++ List.replicate count .dedent, (List.append_assoc ..).symm, fun hmem => ?_⟩
    rcases List.mem_append.mp hmem with hmem | hmem
    · obtain ⟨before, after, hsplit⟩ := List.append_of_mem hmem
      exact (h before _ after hsplit).last rfl
    · cases List.eq_of_mem_replicate hmem
  opened _ hbefore := h.openBlocks_prefix_nonneg hcount hbefore
  closed := by rw [openBlocks_closing, hcount, Int.sub_self]
  outside before kind after hsplit hkind := by
    rcases split_append hsplit with ⟨rest, hfound⟩ | ⟨hmem, hafter⟩
    · exact .inl ((h before kind rest hfound).outside hkind)
    · rcases mem_closing hmem with rfl | rfl
      · exact .inr ⟨rfl, fun later hlater => mem_closing (hafter later hlater)⟩
      · simp [TokenKind.opensBlock, TokenKind.closesBlock] at hkind
  newlines before after hsplit := by
    rw [← List.singleton_append, ← List.append_assoc] at hsplit
    rcases split_append hsplit with ⟨rest, hfound⟩ | ⟨hmem, -⟩
    · exact (h _ _ rest hfound).once rfl List.getLast?_concat
    · rcases mem_closing hmem with hnewline | hnewline <;> cases hnewline

end Laid

/-! ### The scanner -/

namespace Scan

variable {s next : Scan}

theorem getLast?_kinds (s : Scan) : s.kinds.getLast? = s.tokens.head?.map Token.kind := by
  rw [kinds, List.getLast?_reverse, List.head?_map]

theorem getLast?_ne_of_lineIsOpen (h : s.lineIsOpen = true) : s.kinds.getLast? ≠ some .newline := by
  rw [getLast?_kinds]
  unfold lineIsOpen at h
  split at h
  · cases h
  · rename_i kind _ _ _ htokens
    rw [htokens]
    rintro hlast
    cases Option.some.inj hlast
    cases h

/-- By recursion on the widths: some blocks are ended, and those that are left are not wider than the line. -/
theorem closeBlocks_eq (width : Nat) : ∀ {indents : List Nat} (s : Scan), indents.getLast? = some 0 →
    ∃ count < indents.length, (indents.drop count).headD 0 ≤ width ∧
      closeBlocks width indents s = { s with
        indents := indents.drop count
        tokens := List.replicate count ⟨.dedent, s.line, 1⟩ ++ s.tokens }
  | [], _, h => by cases h
  | w :: outer, s, h => by
    unfold closeBlocks
    by_cases hlt : width < w
    · have houter : outer.getLast? = some 0 := by
        cases outer with
        | nil =>
          cases h
          exact absurd hlt (Nat.not_lt_zero _)
        | cons => rwa [List.getLast?_cons_cons] at h
      obtain ⟨count, hcount, hwidth, heq⟩ := closeBlocks_eq width (s.emit .dedent 1) houter
      refine ⟨count + 1, Nat.succ_lt_succ hcount, hwidth, ?_⟩
      rw [if_pos hlt, heq, List.replicate_succ', List.append_assoc]
      rfl
    · exact ⟨0, Nat.succ_pos _, Nat.not_lt.mp hlt, if_neg hlt⟩

/-- The tokens and the widths of a position fit each other. -/
structure Orderly (s : Scan) : Prop where
  laid : Laid s.kinds
  stacked : Stacked s.indents s.kinds
  brackets : s.depth = openBrackets s.kinds
  lineStart : s.atLineStart = true → s.depth = 0

namespace Orderly

theorem start (text : String) : (start text).Orderly :=
  ⟨.nil, ⟨List.pairwise_singleton .., rfl, rfl⟩, rfl, fun _ => rfl⟩

/-- What is read without a token. -/
theorem move (h : s.Orderly) (htokens : next.tokens = s.tokens) (hindents : next.indents = s.indents)
    (hdepth : next.depth = s.depth) (hline : next.atLineStart = true → s.depth = 0) : next.Orderly := by
  have hkinds : next.kinds = s.kinds := by rw [kinds, htokens, kinds]
  exact ⟨hkinds ▸ h.laid, hindents ▸ hkinds ▸ h.stacked, by rw [hdepth, hkinds, h.brackets],
    fun hstart => hdepth.trans (hline hstart)⟩

/-- A token that neither starts nor ends a block is found. -/
theorem emit (h : s.Orderly) {kind : TokenKind} {depth : Nat} (column : Nat) (hkind : MayFollow s.kinds kind)
    (hopens : kind.opensBlock = false) (hcloses : kind.closesBlock = false)
    (hdepth : depth = kindDepth s.depth kind) (hline : s.atLineStart = false) :
    Orderly ({ s with depth }.emit kind column) := by
  have hkinds : ({ s with depth }.emit kind column).kinds = s.kinds ++ [kind] := kinds_emit _ _ _
  refine ⟨hkinds ▸ h.laid.concat hkind, hkinds ▸ h.stacked.concat hopens hcloses, ?_, fun hstart => ?_⟩
  · rw [hkinds, openBrackets_concat, ← h.brackets, ← kindDepth_eq]
    exact hdepth
  · exact Bool.noConfusion (hline.symm.trans hstart)

/-- Blocks are ended outside of brackets, the innermost first. -/
theorem close (h : s.Orderly) (hdepth : s.depth = 0) {count : Nat} (hcount : count < s.indents.length) :
    Orderly { s with
      indents := s.indents.drop count
      tokens := List.replicate count ⟨.dedent, s.line, 1⟩ ++ s.tokens } := by
  have hkinds : kinds { s with
      indents := s.indents.drop count
      tokens := List.replicate count ⟨.dedent, s.line, 1⟩ ++ s.tokens } =
        s.kinds ++ List.replicate count .dedent := by simp [kinds]
  have hbrackets : openBrackets s.kinds = 0 := h.brackets ▸ hdepth
  have hlength := h.stacked.length
  refine ⟨?_, ?_, ?_, h.lineStart⟩
  · rw [hkinds]
    exact h.laid.close hbrackets (by omega)
  · rw [hkinds]
    exact h.stacked.close hcount
  · rw [hkinds, openBrackets_dedents]
    exact h.brackets

/-- Outside of brackets, the indentation of a line starts a block or ends some. -/
theorem indentTo (h : s.Orderly) (hdepth : s.depth = 0) {width : Nat} (hindent : s.indentTo width = .ok next) :
    next.Orderly := by
  unfold Scan.indentTo at hindent
  split at hindent
  · rename_i hwidth
    cases hindent
    have hkinds : (Scan.emit { s with indents := width :: s.indents } .indent 1).kinds = s.kinds ++ [.indent] :=
      kinds_emit _ _ _
    have hbrackets : openBrackets s.kinds = 0 := h.brackets ▸ hdepth
    refine ⟨?_, ?_, ?_, h.lineStart⟩
    · rw [hkinds]
      exact h.laid.concat ⟨by simp, by simp, fun _ => hbrackets, by simp [TokenKind.closesBlock]⟩
    · rw [hkinds]
      exact h.stacked.indent hwidth
    · rw [hkinds, openBrackets_concat]
      exact h.brackets
  · dsimp only at hindent
    split at hindent
    · cases hindent
      obtain ⟨count, hcount, -, heq⟩ := closeBlocks_eq width s h.stacked.outermost
      rw [heq]
      exact h.close hdepth hcount
    · cases hindent

/-- The end of a line is found only after something else. -/
theorem newline (h : s.Orderly) (hline : s.atLineStart = false) (rest : List Char) : (s.newline rest).Orderly := by
  unfold Scan.newline
  extract_lets ended
  have hended : ended.Orderly ∧ ended.depth = s.depth := by
    unfold ended
    split
    · rename_i hopen
      exact ⟨h.emit s.column (.newline (getLast?_ne_of_lineIsOpen hopen.2)) rfl rfl rfl hline, rfl⟩
    · exact ⟨h, rfl⟩
  exact hended.1.move rfl rfl rfl fun hstart => hended.2.trans (of_decide_eq_true hstart)

/-- One lexeme further the tokens and the widths still fit each other. -/
theorem step (h : s.Orderly) (hread : Reads s next) : next.Orderly := by
  cases hread with
  | lastLine | emptyLine | blank | comment | join => exact h.move rfl rfl rfl h.lineStart
  | @indented blanks rest c _ hstart _ _ _ _ hindent =>
    have hline : Orderly { s.advance blanks.length (c :: rest) with atLineStart := false } :=
      h.move rfl rfl rfl fun hfalse => Bool.noConfusion hfalse
    exact hline.indentTo (h.lineStart hstart) hindent
  | lineEnd hline => exact h.newline hline _
  | token hline hrest _ _ htoken =>
    obtain ⟨-, -, hkind, hlast⟩ := finds_of_token hrest htoken
    rename_i text rest kind
    have hmoved : (s.advance text.length rest).Orderly := h.move rfl rfl rfl h.lineStart
    obtain ⟨hopens, hcloses⟩ := opensBlock_closesBlock_of_not_isLayout hkind
    exact hmoved.emit s.column (.lexeme hkind hlast) hopens hcloses rfl hline

theorem reaches {k : Nat} (h : s.Orderly) (hreach : Reaches k s next) : next.Orderly := by
  induction hreach with
  | refl s => exact h
  | step hrest hstep _ ih => exact ih (h.step ((step_eq_ok_iff hrest).mp hstep))

/-- Where the text ends, the last line does if it has not, and then all blocks do. -/
theorem finish (h : s.Orderly) : WellBracketed (s.finish.map Token.kind) := by
  unfold Scan.finish
  extract_lets ended closed
  have hended : Laid ended.kinds ∧ Stacked ended.indents ended.kinds := by
    have hline (hlast : s.kinds.getLast? ≠ some .newline) :
        Laid (s.emit .newline s.column).kinds ∧ Stacked s.indents (s.emit .newline s.column).kinds := by
      rw [kinds_emit]
      exact ⟨h.laid.concat (.newline hlast), h.stacked.concat rfl rfl⟩
    unfold ended
    split
    · exact ⟨h.laid, h.stacked⟩
    · rename_i kind _ _ _ htokens
      split
      · exact ⟨h.laid, h.stacked⟩
      · exact ⟨h.laid, h.stacked⟩
      · rename_i hnewline _
        refine hline fun hlast => ?_
        rw [getLast?_kinds, htokens] at hlast
        exact hnewline (Option.some.inj hlast)
  obtain ⟨hlaid, hstacked⟩ := hended
  obtain ⟨count, hcount, hwidth, heq⟩ := closeBlocks_eq 0 ended hstacked.outermost
  have hopen := (hstacked.close hcount).openBlocks_eq_zero (Nat.le_zero.mp hwidth)
  rw [openBlocks_dedents] at hopen
  have hkinds : (closed.emit .endOfInput closed.column).tokens.reverse.map Token.kind =
      ended.kinds ++ closing count := by
    unfold closed
    rw [heq]
    simp [Scan.emit, kinds, closing]
  rw [hkinds]
  exact hlaid.wellBracketed (by omega)

end Orderly

end Scan

/-- The tokens of a text match.  On the way through the text, blocks start and end outside of brackets only, and the
widths are those of the open blocks, also while some are closed one after the other, be it after the end of a line. -/
theorem wellBracketed_of_tokenize {text : String} {ts : List Token} (h : tokenize text = .ok ts) :
    WellBracketed (ts.map Token.kind) ∧ ∀ k s, Reaches k (start text) s →
      (∀ before kind after, s.kinds = before ++ kind :: after → kind.opensBlock ∨ kind.closesBlock →
        openBrackets before = 0) ∧
      ∀ lineEnd count, lineEnd <+: [.newline] → count < s.indents.length →
        Stacked (s.indents.drop count) (s.kinds ++ lineEnd ++ List.replicate count .dedent) := by
  obtain ⟨k, last, hreach, -, rfl⟩ := tokenize_ok_iff.mp h
  have hstart := Orderly.start text
  refine ⟨(hstart.reaches hreach).finish, fun k s hreach => ?_⟩
  have hs := hstart.reaches hreach
  refine ⟨fun before kind after hsplit => (hs.laid before kind after hsplit).outside, fun lineEnd count hline => ?_⟩
  rcases List.prefix_cons_iff.mp hline with rfl | ⟨rest, rfl, hrest⟩
  · rw [List.append_nil]
    exact hs.stacked.close
  · rw [List.prefix_nil.mp hrest]
    exact (hs.stacked.concat rfl rfl).close

/-- A text that ends inside of brackets and of two blocks, the second of which is indented by a tab. -/
def unfinished : String := "if x:\n  while y:\n\tz = [1,\n2"

theorem wellBracketed_of_tokenize_unfinished :
    ∃ ts, tokenize unfinished = .ok ts ∧ WellBracketed (ts.map Token.kind) := by
  have hreads : (tokenize unfinished).isOk = true := by decide +kernel
  cases h : tokenize unfinished with
  | ok ts => exact ⟨ts, rfl, (wellBracketed_of_tokenize h).1⟩
  | error e =>
    rw [h] at hreads
    cases hreads

end ProgramBreeding.Source

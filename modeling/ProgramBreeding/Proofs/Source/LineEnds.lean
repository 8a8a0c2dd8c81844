import ProgramBreeding.Proofs.Source.Columns
import ProgramBreeding.Proofs.Source.Progress

/-!
# Line ends of two characters

A text whose lines end with a carriage return and a newline denotes the same program as the
text whose lines end with the newline alone, unless a backslash joins two of its lines:
only the shorter line end may follow that backslash.

## Main definitions

* `crlf` — the characters of a text with the longer line ends.
* `joinsLines` — whether a backslash joins two lines of a text.
* `Scan.Mirrors` — positions in the two texts after which the same is left.

## Main results

* `parse_withReturns_iff` — a program can be read from both texts, or no backslash is in
  the way.

## Design notes

Columns differ at the ends of lines, so the tokens of the two texts are the same but for the
columns of line ends.  A comment takes the carriage return with it; then only the newline is
left of the longer line end.
-/

namespace ProgramBreeding.Source

/-! ### Texts with the longer line ends -/

/-- A carriage return in front of every newline. -/
def crlf : List Char → List Char
  | [] => []
  | c :: rest => if c = '\n' then '\r' :: '\n' :: crlf rest else c :: crlf rest

/-- The text with a carriage return in front of every newline. -/
def withReturns (text : String) : String := String.ofList (crlf text.toList)

@[simp] theorem crlf_nil : crlf [] = [] := rfl

@[simp] theorem crlf_newline (rest : List Char) : crlf ('\n' :: rest) = '\r' :: '\n' :: crlf rest := rfl

theorem crlf_cons {c : Char} (h : c ≠ '\n') (rest : List Char) : crlf (c :: rest) = c :: crlf rest :=
  if_neg h

theorem crlf_append_of_line : ∀ {text : List Char}, '\n' ∉ text → ∀ rest,
    crlf (text ++ rest) = text ++ crlf rest
  | [], _, _ => rfl
  | c :: text, h, rest => by
    obtain ⟨hc, htext⟩ := List.ne_and_not_mem_of_not_mem_cons h
    rw [List.cons_append, crlf_cons (Ne.symm hc), crlf_append_of_line htext, List.cons_append]

theorem crlf_of_line {text : List Char} (h : '\n' ∉ text) : crlf text = text := by
  have := crlf_append_of_line h []
  rwa [crlf_nil, List.append_nil] at this

theorem head_crlf_ne_newline (cs : List Char) : (crlf cs).head? ≠ some '\n' := by
  cases cs with
  | nil => nofun
  | cons c rest =>
    by_cases hc : c = '\n'
    · subst hc
      nofun
    · rw [crlf_cons hc]
      simpa using hc

section Classes

variable {p : Char → Bool} (hnewline : p '\n' = false) (hreturn : p '\r' = false)
include hnewline hreturn

theorem head_crlf (cs : List Char) : (crlf cs).head?.any p = cs.head?.any p := by
  cases cs with
  | nil => rfl
  | cons c rest =>
    by_cases hc : c = '\n'
    · subst hc
      exact hreturn.trans hnewline.symm
    · rw [crlf_cons hc]
      rfl

theorem span_crlf : ∀ cs : List Char,
    (crlf cs).takeWhile p = cs.takeWhile p ∧ (crlf cs).dropWhile p = crlf (cs.dropWhile p)
  | [] => ⟨rfl, rfl⟩
  | c :: rest => by
    by_cases hc : c = '\n'
    · subst hc
      rw [crlf_newline, List.takeWhile_cons_of_neg (by simp [hreturn]),
        List.takeWhile_cons_of_neg (by simp [hnewline]), List.dropWhile_cons_of_neg (by simp [hreturn]),
        List.dropWhile_cons_of_neg (by simp [hnewline]), crlf_newline]
      exact ⟨rfl, rfl⟩
    · obtain ⟨htake, hdrop⟩ := span_crlf rest
      rw [crlf_cons hc]
      cases hp : p c with
      | true =>
        rw [List.takeWhile_cons_of_pos hp, List.takeWhile_cons_of_pos hp, List.dropWhile_cons_of_pos hp,
          List.dropWhile_cons_of_pos hp, htake]
        exact ⟨rfl, hdrop⟩
      | false =>
        have hneg : ¬ p c = true := by simp [hp]
        rw [List.takeWhile_cons_of_neg hneg, List.takeWhile_cons_of_neg hneg, List.dropWhile_cons_of_neg hneg,
          List.dropWhile_cons_of_neg hneg, crlf_cons hc]
        exact ⟨rfl, rfl⟩

end Classes

/-- What an operator or quotes are written with stands in both texts or in none. -/
theorem isPrefixOf_crlf : ∀ {spelling : List Char}, (∀ c ∈ spelling, c ≠ '\n' ∧ c ≠ '\r') →
    ∀ cs, spelling.isPrefixOf (crlf cs) = spelling.isPrefixOf cs
  | [], _, _ => by simp
  | c :: spelling, h, [] => rfl
  | c :: spelling, h, d :: cs => by
    obtain ⟨hc, hspelling⟩ := List.forall_mem_cons.mp h
    by_cases hd : d = '\n'
    · subst hd
      rw [crlf_newline, List.isPrefixOf_cons_cons, List.isPrefixOf_cons_cons,
        beq_eq_false_iff_ne.mpr hc.1, beq_eq_false_iff_ne.mpr hc.2]
      rfl
    · rw [crlf_cons hd, List.isPrefixOf_cons_cons, List.isPrefixOf_cons_cons, isPrefixOf_crlf hspelling]

/-! ### Joined lines -/

/-- Where a character stands. -/
inductive Region where
  | code
  | comment
  | string (quote : Char)
  /-- After a backslash in a string. -/
  | escape (quote : Char)
  deriving DecidableEq

/-- Where the next character stands. -/
def Region.next : Region → Char → Region
  | .code, c => if c = '#' then .comment else if c = '"' ∨ c = '\'' then .string c else .code
  | .comment, c => if c = '\n' then .code else .comment
  | .string quote, c => if c = quote then .code else if c = '\\' then .escape quote else .string quote
  | .escape quote, _ => .string quote

/-- In some region or after it, a backslash outside of comments and strings ends a line. -/
def joinsLines : Region → List Char → Bool
  | _, [] => false
  | region, c :: rest =>
    (region = .code && c == '\\' && rest.head? == some '\n') || joinsLines (region.next c) rest

/-- A backslash outside of comments and strings ends a line of the text. -/
def JoinsLines (text : String) : Prop := joinsLines .code text.toList = true

instance (text : String) : Decidable (JoinsLines text) :=
  inferInstanceAs (Decidable (_ = true))

/-- A character that starts no comment and no string and joins no lines. -/
def IsPlain (c : Char) : Prop := c ∉ ['#', '"', '\'', '\\']

instance : DecidablePred IsPlain := fun _ => inferInstanceAs (Decidable (_ ∉ _))

theorem joinsLines_plain : ∀ {text : List Char}, (∀ c ∈ text, IsPlain c) → ∀ rest,
    joinsLines .code (text ++ rest) = joinsLines .code rest
  | [], _, _ => rfl
  | c :: text, h, rest => by
    obtain ⟨hc, htext⟩ := List.forall_mem_cons.mp h
    simp only [IsPlain, List.mem_cons, List.not_mem_nil, or_false, not_or] at hc
    have hnext : Region.code.next c = .code :=
      (if_neg hc.1).trans (if_neg (not_or.mpr ⟨hc.2.1, hc.2.2.1⟩))
    rw [List.cons_append, joinsLines, hnext, joinsLines_plain htext, beq_eq_false_iff_ne.mpr hc.2.2.2]
    simp

theorem joinsLines_comment : ∀ {text : List Char}, '\n' ∉ text → ∀ rest,
    joinsLines .comment (text ++ rest) = joinsLines .comment rest
  | [], _, _ => rfl
  | c :: text, h, rest => by
    obtain ⟨hc, htext⟩ := List.ne_and_not_mem_of_not_mem_cons h
    have hnext : Region.comment.next c = .comment := if_neg (Ne.symm hc)
    rw [List.cons_append, joinsLines, hnext, joinsLines_comment htext]
    rfl

theorem line_of_areBlanks {blanks : List Char} (h : Scan.AreBlanks blanks) : '\n' ∉ blanks :=
  fun hmem => absurd (h _ hmem) (by decide)

theorem plain_of_areBlanks {blanks : List Char} (h : Scan.AreBlanks blanks) : ∀ c ∈ blanks, IsPlain c := by
  have hplain : ∀ c ∈ [' ', '\t', '\x0c'], IsPlain c := by decide
  exact fun c hc => hplain c (h c hc)

/-- A comment takes the carriage return of its line with it. -/
theorem isComment_append_return {text : List Char} (h : Scan.IsComment text) :
    Scan.IsComment (text ++ ['\r']) := by
  obtain ⟨cs, rfl⟩ := h.eq_cons
  exact ⟨rfl, fun hmem => (List.mem_append.mp hmem).elim h.2 (by decide)⟩

/-- After a comment comes the end of its line. -/
theorem joinsLines_of_isComment {text rest : List Char} (htext : Scan.IsComment text)
    (hend : ∀ c ∈ rest.head?, c = '\n') : joinsLines .code (text ++ rest) = joinsLines .code rest := by
  obtain ⟨cs, rfl⟩ := htext.eq_cons
  have hcs : '\n' ∉ cs := fun h => htext.2 (List.mem_cons_of_mem _ h)
  have hstart : joinsLines .code ('#' :: cs ++ rest) = joinsLines .comment (cs ++ rest) := rfl
  rw [hstart, joinsLines_comment hcs]
  cases rest with
  | nil => rfl
  | cons c rest =>
    rw [hend c rfl]
    rfl

theorem joinsLines_text {text rest : List Char} (htext : text = [] ∨ Scan.IsComment text)
    (hend : ∀ c ∈ rest.head?, c = '\n') : joinsLines .code (text ++ rest) = joinsLines .code rest := by
  rcases htext with rfl | htext
  · rfl
  · exact joinsLines_of_isComment htext hend

/-! ### Tokens of both texts -/

namespace Scan

/-- Characters of tokens other than strings. -/
theorem isPlain_of_class {p : Char → Bool} (hp : ∀ c ∈ ['#', '"', '\'', '\\'], p c = false) {c : Char}
    (hc : p c = true) : IsPlain c := fun hmem => Bool.noConfusion (hc.symm.trans (hp c hmem))

namespace NumberSpan

/-- The number in the text with the longer line ends. -/
def crlf (n : NumberSpan) : NumberSpan := { n with rest := Source.crlf n.rest }

theorem addDigits_crlf (n : NumberSpan) : n.crlf.addDigits = n.addDigits.crlf := by
  obtain ⟨htake, hdrop⟩ := span_crlf (p := isDigitPart) rfl rfl n.rest
  unfold addDigits crlf
  dsimp only
  rw [htake, hdrop]

theorem addFraction_point (text : List Char) (isFloat : Bool) (d : Char) (after : List Char) :
    addFraction ⟨text, isFloat, '.' :: d :: after⟩ =
      if d.isDigit then addDigits ⟨text ++ ['.'], true, d :: after⟩
      else if Text.isWordStart d then ⟨text, isFloat, '.' :: d :: after⟩
      else ⟨text ++ ['.'], true, d :: after⟩ := rfl

theorem addFraction_of_head {n : NumberSpan} (h : n.rest.head?.any (· == '.') = false) :
    n.addFraction = n := by
  unfold addFraction
  split
  · rename_i after hrest
    rw [hrest] at h
    cases h
  · rfl

theorem addFraction_crlf (n : NumberSpan) : n.crlf.addFraction = n.addFraction.crlf := by
  cases hpoint : n.rest.head?.any (· == '.') with
  | false =>
    have hpoint' : n.crlf.rest.head?.any (· == '.') = false :=
      (head_crlf (p := (· == '.')) rfl rfl n.rest).trans hpoint
    rw [addFraction_of_head hpoint, addFraction_of_head hpoint']
  | true =>
    obtain ⟨text, isFloat, rest⟩ := n
    obtain ⟨after, rfl⟩ : ∃ after, rest = '.' :: after := by
      cases rest with
      | nil => cases hpoint
      | cons c after => exact ⟨after, by rw [eq_of_beq hpoint]⟩
    cases after with
    | nil => rfl
    | cons d after =>
      -- At the end of its line, a point has no digit and no word behind it in either text.
      by_cases hd : d = '\n'
      · subst hd
        rfl
      have hafter : Source.crlf (d :: after) = d :: Source.crlf after := crlf_cons hd _
      have hcrlf : crlf ⟨text, isFloat, '.' :: d :: after⟩ = ⟨text, isFloat, '.' :: d :: Source.crlf after⟩ := by
        rw [crlf, crlf_cons (by decide), hafter]
      rw [hcrlf, addFraction_point, addFraction_point]
      split
      · rw [← addDigits_crlf, crlf, hafter]
      · split
        · exact hcrlf.symm
        · rw [crlf, hafter]

/-- The sign in front of a power, and what follows it. -/
theorem sign_crlf {p : Char → Bool} (hnewline : p '\n' = false) (hreturn : p '\r' = false) (cs : List Char) :
    ((Source.crlf cs).take 1).filter p = (cs.take 1).filter p ∧
      (Source.crlf cs).drop ((cs.take 1).filter p).length = Source.crlf (cs.drop ((cs.take 1).filter p).length) := by
  cases cs with
  | nil => exact ⟨rfl, rfl⟩
  | cons c rest =>
    by_cases hc : c = '\n'
    · subst hc
      simp [hnewline, hreturn]
    · rw [crlf_cons hc]
      cases hp : p c <;> simp [hp, crlf_cons hc]

theorem addExponent_crlf (n : NumberSpan) : n.crlf.addExponent = n.addExponent.crlf := by
  obtain ⟨text, isFloat, rest⟩ := n
  cases rest with
  | nil => rfl
  | cons e after =>
    by_cases he : e = '\n'
    · subst he
      rfl
    obtain ⟨hsign, hpower⟩ := sign_crlf (p := fun c => c == '+' || c == '-') rfl rfl after
    have hcrlf : crlf ⟨text, isFloat, e :: after⟩ = ⟨text, isFloat, e :: Source.crlf after⟩ := by
      rw [crlf, crlf_cons he]
    rw [hcrlf]
    unfold addExponent
    dsimp only
    split
    · rw [hsign, hpower, head_crlf rfl rfl]
      split
      · rw [← addDigits_crlf]
        rfl
      · exact hcrlf.symm
    · exact hcrlf.symm

/-- Characters of numbers are plain. -/
def IsPlain (n : NumberSpan) : Prop := ∀ c ∈ n.text, Source.IsPlain c

end NumberSpan

theorem spanNumber_crlf (cs : List Char) : spanNumber (crlf cs) = (spanNumber cs).crlf := by
  unfold spanNumber
  rw [← NumberSpan.addExponent_crlf, ← NumberSpan.addFraction_crlf, ← NumberSpan.addDigits_crlf]
  rfl

theorem isPlain_spanNumber (cs : List Char) : (spanNumber cs).IsPlain :=
  forall_mem_spanNumber (fun _ hc => isPlain_of_class (p := isDigitPart) (by decide) hc) (by decide) cs

/-! ### Positions in both texts -/

/-- Positions at which the same has been found, but for columns. -/
structure Alike (s s' : Scan) : Prop where
  line : s'.line = s.line
  indents : s'.indents = s.indents
  depth : s'.depth = s.depth
  atLineStart : s'.atLineStart = s.atLineStart
  tokens : List.Forall₂ Token.SameButColumn s.tokens s'.tokens

theorem Alike.emit {s s' : Scan} (h : Alike s s') (kind : TokenKind) (column column' : Nat) :
    Alike (s.emit kind column) (s'.emit kind column') :=
  { h with tokens := .cons ⟨rfl, h.line.symm⟩ h.tokens }

theorem Alike.advance {s s' : Scan} (h : Alike s s') (count count' : Nat) (rest rest' : List Char) :
    Alike (s.advance count rest) (s'.advance count' rest') :=
  ⟨h.line, h.indents, h.depth, h.atLineStart, h.tokens⟩

theorem Alike.withDepth {s s' : Scan} (h : Alike s s') (depth : Nat) :
    Alike { s with depth := depth } { s' with depth := depth } :=
  ⟨h.line, h.indents, rfl, h.atLineStart, h.tokens⟩

theorem Alike.nextLine {s s' : Scan} (h : Alike s s') (rest rest' : List Char) :
    Alike (s.nextLine rest) (s'.nextLine rest') :=
  ⟨congrArg (· + 1) h.line, h.indents, h.depth, h.atLineStart, h.tokens⟩

theorem Alike.lineIsOpen {s s' : Scan} (h : Alike s s') : s'.lineIsOpen = s.lineIsOpen := by
  unfold Scan.lineIsOpen
  obtain ⟨-, -, -, -, htokens⟩ := h
  generalize s.tokens = ts, s'.tokens = us at htokens
  cases htokens with
  | nil => rfl
  | cons hfirst _ =>
    dsimp only
    rw [hfirst.1]

theorem Alike.newline {s s' : Scan} (h : Alike s s') (rest rest' : List Char) :
    Alike (s.newline rest) (s'.newline rest') := by
  have hended : Alike (if s.depth = 0 ∧ s.lineIsOpen = true then s.emit .newline s.column else s)
      (if s'.depth = 0 ∧ s'.lineIsOpen = true then s'.emit .newline s'.column else s') := by
    rw [h.depth, h.lineIsOpen]
    split
    · exact h.emit _ _ _
    · exact h
  exact { hended with
    line := congrArg (· + 1) hended.line
    atLineStart := by
      show decide (s'.depth = 0) = decide (s.depth = 0)
      rw [h.depth] }

theorem Alike.closeBlocks {width : Nat} : ∀ {indents : List Nat} {s s' : Scan}, Alike s s' →
    Alike (closeBlocks width indents s) (closeBlocks width indents s')
  | [], _, _, h => { h with indents := rfl }
  | w :: outer, s, s', h => by
    unfold Scan.closeBlocks
    split
    · exact (h.emit .dedent 1 1).closeBlocks
    · exact { h with indents := rfl }

theorem Alike.indentTo {s s' next : Scan} (h : Alike s s') {width : Nat}
    (hnext : s.indentTo width = .ok next) : ∃ next', s'.indentTo width = .ok next' ∧ Alike next next' := by
  unfold Scan.indentTo at hnext ⊢
  rw [h.indents]
  split at hnext
  · rename_i hwider
    cases hnext
    rw [if_pos hwider]
    have hopened : Alike { s with indents := width :: s.indents } { s' with indents := width :: s.indents } :=
      ⟨h.line, rfl, h.depth, h.atLineStart, h.tokens⟩
    exact ⟨_, rfl, hopened.emit .indent 1 1⟩
  · rename_i hwider
    dsimp only at hnext
    have hclosed : Alike (Scan.closeBlocks width s.indents s) (Scan.closeBlocks width s.indents s') :=
      h.closeBlocks
    split at hnext
    · rename_i hmatch
      cases hnext
      rw [if_neg hwider]
      dsimp only
      rw [hclosed.indents, if_pos hmatch]
      exact ⟨_, rfl, hclosed⟩
    · cases hnext

theorem Alike.finish {s s' : Scan} (h : Alike s s') :
    List.Forall₂ Token.SameButColumn s.finish s'.finish := by
  unfold Scan.finish
  extract_lets ended closed ended' closed'
  have hended : Alike ended ended' := by
    have htokens := h.tokens
    unfold ended ended'
    generalize s.tokens = ts, s'.tokens = us at htokens
    cases htokens with
    | nil => exact h
    | cons hfirst _ =>
      dsimp only
      rw [hfirst.1]
      split
      · exact h
      · exact h
      · exact h.emit _ _ _
  have hclosed : Alike closed closed' := by
    unfold closed closed'
    rw [hended.indents]
    exact hended.closeBlocks
  exact List.rel_reverse (hclosed.emit _ _ _).tokens

/-! ### Tokens -/

/-- A token read in the one text is read in the other, and no lines are joined in it. -/
structure Matches (s next next' : Scan) : Prop where
  alike : Alike next next'
  rest : next'.rest = crlf next.rest
  joins : joinsLines .code s.rest = joinsLines .code next.rest

section Tokens

variable {s s' next : Scan} (h : Alike s s') (hrest' : s'.rest = crlf s.rest)
include h hrest'

theorem matches_number (hnext : s.number = .ok next) :
    ∃ next', s'.number = .ok next' ∧ Matches s next next' := by
  have hwhole := spanNumber_append s.rest
  have hplain := isPlain_spanNumber s.rest
  have hspan := spanNumber_crlf s.rest
  unfold number at hnext ⊢
  rw [hrest', hspan]
  generalize spanNumber s.rest = n at hnext hwhole hplain
  obtain ⟨text, isFloat, rest⟩ := n
  extract_lets n after at hnext
  extract_lets n' after'
  have hword : n'.rest.head?.any Text.isWordPart = n.rest.head?.any Text.isWordPart :=
    head_crlf rfl rfl rest
  rw [hword]
  have hkind : numberKind n' = numberKind n := rfl
  rw [hkind]
  split at hnext
  · cases hnext
  · rename_i hend
    rw [if_neg hend]
    split at hnext
    · cases hnext
    · rename_i kind hok
      cases hnext
      refine ⟨_, rfl, (h.advance _ _ _ _).emit _ _ _, rfl, ?_⟩
      rw [← hwhole]
      exact joinsLines_plain hplain rest

theorem matches_word : Matches s s.word s'.word := by
  obtain ⟨htake, hdrop⟩ := span_crlf (p := Text.isWordPart) rfl rfl s.rest
  have hplain : ∀ c ∈ s.rest.takeWhile Text.isWordPart, IsPlain c := fun c hc =>
    isPlain_of_class (p := Text.isWordPart) (by decide) (List.all_eq_true.mp List.all_takeWhile c hc)
  have hjoins := joinsLines_plain hplain (s.rest.dropWhile Text.isWordPart)
  rw [List.takeWhile_append_dropWhile] at hjoins
  unfold word
  rw [hrest', htake, hdrop]
  exact ⟨(h.advance _ _ _ _).emit _ _ _, rfl, hjoins⟩

end Tokens

/-! ### Strings -/

/-- The characters of a string behind its opening quote, with the value that they add up to after
the characters found before. -/
inductive StringText (quote : Char) : List Char → List Char → String → Prop
  | close {found : List Char} (hline : quote ≠ '\n') :
      StringText quote found [quote] (String.ofList found.reverse)
  | escaped {found text : List Char} {value : String} {e c : Char} (hquote : '\\' ≠ quote)
      (hescape : unescape? e = some c) (h : StringText quote (c :: found) text value) :
      StringText quote found ('\\' :: e :: text) value
  | plain {found text : List Char} {value : String} {c : Char} (hline : c ≠ '\n') (hquote : c ≠ quote)
      (hescape : c ≠ '\\') (h : StringText quote (c :: found) text value) :
      StringText quote found (c :: text) value

theorem exists_stringText {s : Scan} {quote : Char} {value : String} {after : Scan} {found : List Char}
    {count : Nat} {cs : List Char} (h : s.stringAfter quote found count cs = .ok (value, after)) :
    ∃ text rest, cs = text ++ rest ∧ after = s.advance (count + text.length) rest ∧
      StringText quote found text value := by
  fun_induction stringAfter s quote found count cs with
  | case1 | case2 | case4 | case5 => cases h
  | case3 found count c rest hnewline hquote =>
    cases h
    cases eq_of_beq hquote
    exact ⟨[_], rest, rfl, rfl, .close fun h => hnewline (beq_iff_eq.mpr h)⟩
  | case6 found count c hnewline hquote hescape e after' escaped hunescape ih =>
    obtain ⟨text, rest, rfl, rfl, htext⟩ := ih h
    cases eq_of_beq hescape
    refine ⟨_ :: e :: text, rest, rfl, ?_, .escaped (fun h => hquote (beq_iff_eq.mpr h)) hunescape htext⟩
    rw [List.length_cons, List.length_cons, Nat.add_assoc, Nat.add_comm 2]
  | case7 found count c rest hnewline hquote hescape ih =>
    obtain ⟨text, rest, rfl, rfl, htext⟩ := ih h
    refine ⟨c :: text, rest, rfl, ?_, .plain (fun h => hnewline (beq_iff_eq.mpr h))
      (fun h => hquote (beq_iff_eq.mpr h)) (fun h => hescape (beq_iff_eq.mpr h)) htext⟩
    rw [List.length_cons, Nat.add_assoc, Nat.add_comm 1]

namespace StringText

variable {quote : Char} {found text : List Char} {value : String}

/-- A string is the same whatever follows it. -/
theorem stringAfter_eq (h : StringText quote found text value) (s : Scan) (count : Nat) (rest : List Char) :
    s.stringAfter quote found count (text ++ rest) = .ok (value, s.advance (count + text.length) rest) := by
  induction h generalizing count with
  | close hline =>
    rw [List.singleton_append, stringAfter.eq_def]
    dsimp only
    rw [if_neg (by simpa using hline), if_pos (beq_self_eq_true quote)]
    rfl
  | escaped hquote hescape _ ih =>
    rw [List.cons_append, List.cons_append, stringAfter.eq_def]
    dsimp only
    rw [if_neg (by decide), if_neg (by simpa using hquote), if_pos (by decide), hescape]
    dsimp only
    rw [ih, List.length_cons, List.length_cons, Nat.add_assoc, Nat.add_comm 2]
  | plain hline hquote hescape _ ih =>
    rw [List.cons_append, stringAfter.eq_def]
    dsimp only
    rw [if_neg (by simpa using hline), if_neg (by simpa using hquote), if_neg (by simpa using hescape), ih,
      List.length_cons, Nat.add_assoc, Nat.add_comm 1]

theorem line (h : StringText quote found text value) : '\n' ∉ text := by
  induction h with
  | close hline => exact fun h => hline (List.mem_singleton.mp h).symm
  | escaped _ hescape _ ih =>
    simp only [List.mem_cons, not_or]
    refine ⟨by decide, ?_, ih⟩
    rintro rfl
    cases hescape
  | plain hline _ _ _ ih => exact fun hmem => (List.mem_cons.mp hmem).elim hline.symm ih

/-- No lines are joined in a string. -/
theorem joinsLines_append (h : StringText quote found text value) (rest : List Char) :
    joinsLines (.string quote) (text ++ rest) = joinsLines .code rest := by
  induction h with
  | close =>
    have hnext : (Region.string quote).next quote = .code := if_pos rfl
    show joinsLines (.string quote) (quote :: rest) = _
    rw [joinsLines, hnext]
    rfl
  | @escaped _ text _ e _ hquote _ _ ih =>
    have hnext : (Region.string quote).next '\\' = .escape quote := (if_neg hquote).trans (if_pos rfl)
    show joinsLines (.string quote) ('\\' :: e :: (text ++ rest)) = _
    rw [joinsLines, hnext, joinsLines, ← ih]
    rfl
  | @plain _ text _ c _ hquote hescape _ ih =>
    have hnext : (Region.string quote).next c = .string quote := (if_neg hquote).trans (if_neg hescape)
    show joinsLines (.string quote) (c :: (text ++ rest)) = _
    rw [joinsLines, hnext, ← ih]
    rfl

end StringText

section Tokens

variable {s s' next : Scan} (h : Alike s s') (hrest' : s'.rest = crlf s.rest)
include h hrest'

omit hrest' in
theorem matches_string {quote : Char} {rest : List Char} (hrest : s.rest = quote :: rest)
    (hquote : quote = '"' ∨ quote = '\'') (hnext : s.string quote rest = .ok next) :
    ∃ next', s'.string quote (crlf rest) = .ok next' ∧ Matches s next next' := by
  unfold string at hnext ⊢
  split at hnext
  · cases hnext
  · rename_i htriple
    split at hnext
    · cases hnext
    · rename_i value after hafter
      cases hnext
      obtain ⟨text, tail, rfl, rfl, htext⟩ := exists_stringText hafter
      have hcrlf := crlf_append_of_line htext.line tail
      have hquotes : ∀ c ∈ [quote, quote], c ≠ '\n' ∧ c ≠ '\r' := by
        rcases hquote with rfl | rfl <;> decide
      rw [← isPrefixOf_crlf hquotes] at htriple
      rw [if_neg htriple, hcrlf, htext.stringAfter_eq]
      refine ⟨_, rfl, (h.advance _ _ _ _).emit _ _ _, rfl, ?_⟩
      rw [hrest]
      have hstart : Region.code.next quote = .string quote := by
        rcases hquote with rfl | rfl <;> rfl
      rw [joinsLines, hstart, htext.joinsLines_append]
      rcases hquote with rfl | rfl <;> rfl

theorem matches_operator {c : Char} (hnext : s.operator c = .ok next) :
    ∃ next', s'.operator c = .ok next' ∧ Matches s next next' := by
  have hspelled : ∀ op ∈ Symbol.spelledOperators, (∀ c ∈ op.1, c ≠ '\n' ∧ c ≠ '\r') ∧ ∀ c ∈ op.1, IsPlain c := by
    decide
  have hfind : (Symbol.spelledOperators.find? fun op => op.1.isPrefixOf (crlf s.rest)) =
      Symbol.spelledOperators.find? fun op => op.1.isPrefixOf s.rest :=
    List.find?_congr fun op hop => isPrefixOf_crlf (hspelled op hop).1 s.rest
  unfold operator at hnext ⊢
  rw [hrest', hfind]
  split at hnext
  · cases hnext
  · rename_i spelling op hop
    cases hnext
    have hprefix : spelling.isPrefixOf s.rest = true :=
      List.find?_some (p := fun op : List Char × Symbol => op.1.isPrefixOf s.rest) hop
    obtain ⟨tail, htail⟩ := List.isPrefixOf_iff_prefix.mp hprefix
    obtain ⟨hline, hplain⟩ := hspelled _ (List.mem_of_find?_eq_some hop)
    have hcrlf := crlf_append_of_line (fun h => (hline _ h).1 rfl) tail
    rw [← htail, hcrlf]
    dsimp only
    rw [List.drop_left, List.drop_left, h.depth]
    refine ⟨_, rfl, ((h.advance _ _ _ _).withDepth _).emit _ _ _, rfl, ?_⟩
    rw [← htail]
    exact joinsLines_plain hplain tail

theorem matches_token {c : Char} {rest : List Char} (hrest : s.rest = c :: rest)
    (hnext : s.token c rest = .ok next) :
    ∃ next', s'.token c (crlf rest) = .ok next' ∧ Matches s next next' := by
  unfold Scan.token at hnext ⊢
  rw [head_crlf rfl rfl rest]
  split at hnext
  · rename_i hdigit
    rw [if_pos hdigit]
    exact matches_number h hrest' hnext
  rename_i hdigit
  rw [if_neg hdigit]
  split at hnext
  · rename_i hword
    cases hnext
    rw [if_pos hword]
    exact ⟨_, rfl, matches_word h hrest'⟩
  rename_i hword
  rw [if_neg hword]
  split at hnext
  · rename_i hquote
    rw [if_pos hquote]
    exact matches_string h hrest (by simpa using hquote) hnext
  · rename_i hquote
    rw [if_neg hquote]
    exact matches_operator h hrest' hnext

end Tokens

/-! ### Steps in both texts -/

/-- Positions after which the same is left of both texts.  Of the longer line end only the newline
may be left. -/
structure Mirrors (s s' : Scan) : Prop where
  alike : Alike s s'
  rest : s'.rest = crlf s.rest ∨
    s.atLineStart = false ∧ ∃ after, s.rest = '\n' :: after ∧ s'.rest = '\n' :: crlf after

/-- After some steps in the other text the same is left as after a step in the one. -/
def Follows (s next s' : Scan) : Prop :=
  ∃ k next', Reaches k s' next' ∧ Mirrors next next' ∧
    joinsLines .code s.rest = joinsLines .code next.rest

theorem follows_of_reads {s next s' next' : Scan} (hread : Reads s' next') (hne : s'.rest ≠ [])
    (hmirrors : Mirrors next next') (hjoins : joinsLines .code s.rest = joinsLines .code next.rest) :
    Follows s next s' :=
  ⟨1, next', .one hne ((step_eq_ok_iff hne).mpr hread), hmirrors, hjoins⟩

section Steps

variable {s s' next : Scan} (h : Alike s s')
include h

theorem follows_lineEnd {after : List Char} (hline : s.atLineStart = false) (hrest : s.rest = '\n' :: after)
    (hrest' : s'.rest = '\n' :: crlf after) : Follows s (s.newline after) s' :=
  follows_of_reads (.lineEnd (h.atLineStart.trans hline) hrest') (by simp [hrest'])
    ⟨h.newline _ _, .inl rfl⟩ (by rw [hrest]; rfl)

theorem follows_lineEnd_crlf {after : List Char} (hline : s.atLineStart = false) (hrest : s.rest = '\n' :: after)
    (hrest' : s'.rest = crlf s.rest) : Follows s (s.newline after) s' := by
  -- The carriage return is read as a blank, and then the line ends.
  rw [hrest, crlf_newline] at hrest'
  have hreturn : Reads s' (s'.advance 1 ('\n' :: crlf after)) :=
    .blank (h.atLineStart.trans hline) hrest' (by decide)
  have hne : s'.rest ≠ [] := by simp [hrest']
  have halike : Alike s (s'.advance 1 ('\n' :: crlf after)) :=
    ⟨h.line, h.indents, h.depth, h.atLineStart, h.tokens⟩
  obtain ⟨k, next', hreach, hfollows⟩ := follows_lineEnd halike hline hrest rfl
  exact ⟨1 + k, next', (Reaches.one hne ((step_eq_ok_iff hne).mpr hreturn)).trans hreach, hfollows⟩

/-- Where a backslash joins two lines, the other text has an error. -/
theorem error_of_join {after : List Char} (hline : s.atLineStart = false)
    (hrest' : s'.rest = '\\' :: '\r' :: after) : s'.step = s'.fail (.unexpectedCharacter '\\') := by
  rw [step_of_line (h.atLineStart.trans hline) hrest', lexeme_eq_token (by decide) fun _ => by simp]
  have hfind : Symbol.spelledOperators.find? (fun op => op.1.isPrefixOf ('\\' :: '\r' :: after)) = none := by
    refine List.find?_eq_none.mpr fun op hop hprefix => ?_
    have hspelled : ∀ op ∈ Symbol.spelledOperators, op.1.head?.any (· != '\\') = true := by decide
    have hhead := hspelled op hop
    cases hspelling : op.1 with
    | nil =>
      rw [hspelling] at hhead
      cases hhead
    | cons c spelling =>
      rw [hspelling] at hhead hprefix
      rw [List.isPrefixOf_cons_cons, Bool.and_eq_true] at hprefix
      have hc : (c != '\\') = true := hhead
      rw [eq_of_beq hprefix.1] at hc
      cases hc
  show s'.operator '\\' = _
  unfold operator
  rw [hrest', hfind]

variable (hrest' : s'.rest = crlf s.rest)
include hrest'

theorem follows_lastLine {blanks text : List Char} (hne : s.rest ≠ []) (hstart : s.atLineStart = true)
    (hrest : s.rest = blanks ++ text) (hblanks : AreBlanks blanks) (htext : text = [] ∨ IsComment text) :
    Follows s (s.advance (blanks ++ text).length []) s' := by
  have hline : '\n' ∉ blanks ++ text := fun hmem => (List.mem_append.mp hmem).elim
    (line_of_areBlanks hblanks) (htext.elim (fun h => by rw [h]; nofun) And.right)
  have hsame : s'.rest = blanks ++ text := by rw [hrest', hrest, crlf_of_line hline]
  have hjoins : joinsLines .code (text ++ []) = joinsLines .code [] := joinsLines_text htext nofun
  rw [List.append_nil] at hjoins
  refine follows_of_reads (.lastLine (h.atLineStart.trans hstart) hsame hblanks htext)
    (by rwa [hsame, ← hrest]) ⟨h.advance _ _ _ _, .inl rfl⟩ ?_
  rw [hrest, joinsLines_plain (plain_of_areBlanks hblanks), hjoins]
  rfl

theorem follows_emptyLine {blanks text after : List Char} (hstart : s.atLineStart = true)
    (hrest : s.rest = blanks ++ (text ++ '\n' :: after)) (hblanks : AreBlanks blanks)
    (htext : text = [] ∨ IsComment text) : Follows s (s.nextLine after) s' := by
  have hline : '\n' ∉ text := htext.elim (fun h => by rw [h]; nofun) And.right
  have hlonger : text ++ ['\r'] = [] ∨ text ++ ['\r'] = ['\r'] ∨ IsComment (text ++ ['\r']) :=
    .inr (htext.imp (fun h => by rw [h]; rfl) isComment_append_return)
  have hsplit : s'.rest = blanks ++ ((text ++ ['\r']) ++ '\n' :: crlf after) := by
    rw [hrest', hrest, crlf_append_of_line (line_of_areBlanks hblanks), crlf_append_of_line hline,
      crlf_newline, List.append_assoc]
    rfl
  refine follows_of_reads (.emptyLine (h.atLineStart.trans hstart) hsplit hblanks hlonger)
    (by simp [hsplit]) ⟨h.nextLine _ _, .inl rfl⟩ ?_
  rw [hrest, joinsLines_plain (plain_of_areBlanks hblanks),
    joinsLines_text htext fun c hc => by cases hc; rfl]
  rfl

theorem follows_indented {blanks rest : List Char} {c : Char} (hstart : s.atLineStart = true)
    (hrest : s.rest = blanks ++ c :: rest) (hblanks : AreBlanks blanks)
    (hc : c ∉ [' ', '\t', '\x0c', '\n', '#'])
    (hindent : { s.advance blanks.length (c :: rest) with atLineStart := false }.indentTo
      (measure 0 0 blanks).1 = .ok next) : Follows s next s' := by
  have hnewline : c ≠ '\n' := fun h => hc (by simp [h])
  have hsplit : s'.rest = blanks ++ c :: crlf rest := by
    rw [hrest', hrest, crlf_append_of_line (line_of_areBlanks hblanks), crlf_cons hnewline]
  have hinside : Alike { s.advance blanks.length (c :: rest) with atLineStart := false }
      { s'.advance blanks.length (c :: crlf rest) with atLineStart := false } :=
    ⟨h.line, h.indents, h.depth, rfl, h.tokens⟩
  obtain ⟨next', hindent', hnext⟩ := hinside.indentTo hindent
  have hleft : next.rest = c :: rest := (indentTo_position hindent).1
  have hleft' : next'.rest = c :: crlf rest := (indentTo_position hindent').1
  refine follows_of_reads (.indented (h.atLineStart.trans hstart) hsplit hblanks hc
    (fun _ => head_crlf_ne_newline rest) hindent') (by simp [hsplit]) ⟨hnext, .inl ?_⟩ ?_
  · rw [hleft, hleft', crlf_cons hnewline]
  · rw [hleft, hrest, joinsLines_plain (plain_of_areBlanks hblanks)]

theorem follows_blank {c : Char} {rest : List Char} (hline : s.atLineStart = false)
    (hrest : s.rest = c :: rest) (hc : c ∈ ['\r', ' ', '\t', '\x0c']) :
    Follows s (s.advance 1 rest) s' := by
  have hblank : ∀ c ∈ ['\r', ' ', '\t', '\x0c'], c ≠ '\n' ∧ IsPlain c := by decide
  obtain ⟨hnewline, hplain⟩ := hblank c hc
  have hsplit : s'.rest = c :: crlf rest := by rw [hrest', hrest, crlf_cons hnewline]
  have hjoins : joinsLines .code ([c] ++ rest) = joinsLines .code rest :=
    joinsLines_plain (List.forall_mem_singleton.mpr hplain) rest
  exact follows_of_reads (.blank (h.atLineStart.trans hline) hsplit hc) (by simp [hsplit])
    ⟨h.advance _ _ _ _, .inl rfl⟩ (by rw [hrest]; exact hjoins)

/-- The comment of the other text ends with the carriage return. -/
theorem follows_comment {text rest : List Char} (hne : s.rest ≠ []) (hline : s.atLineStart = false)
    (hrest : s.rest = text ++ rest) (htext : IsComment text) (hend : ∀ c ∈ rest.head?, c = '\n') :
    Follows s (s.advance text.length rest) s' := by
  have hline' := h.atLineStart.trans hline
  have hjoins : joinsLines .code s.rest = joinsLines .code rest := by
    rw [hrest, joinsLines_of_isComment htext hend]
  cases rest with
  | nil =>
    have hsplit : s'.rest = text ++ [] := by rw [hrest', hrest, List.append_nil, crlf_of_line htext.2]
    exact follows_of_reads (.comment hline' hsplit htext hend) (by rwa [hsplit, ← hrest])
      ⟨h.advance _ _ _ _, .inl rfl⟩ hjoins
  | cons d after =>
    cases hend d rfl
    have hsplit : s'.rest = (text ++ ['\r']) ++ '\n' :: crlf after := by
      rw [hrest', hrest, crlf_append_of_line htext.2, crlf_newline, List.append_assoc]
      rfl
    exact follows_of_reads
      (.comment hline' hsplit (isComment_append_return htext) fun c hc => by cases hc; rfl)
      (by simp [hsplit]) ⟨h.advance _ _ _ _, .inr ⟨hline, after, rfl, rfl⟩⟩ hjoins

theorem follows_token {c : Char} {rest : List Char} (hline : s.atLineStart = false)
    (hrest : s.rest = c :: rest) (hc : c ∉ ['\n', '\r', ' ', '\t', '\x0c', '#'])
    (htoken : s.token c rest = .ok next) : Follows s next s' := by
  have hnewline : c ≠ '\n' := fun h => hc (by simp [h])
  have hsplit : s'.rest = c :: crlf rest := by rw [hrest', hrest, crlf_cons hnewline]
  obtain ⟨next', htoken', halike, hleft, hjoins⟩ := matches_token h hrest' hrest htoken
  exact follows_of_reads (.token (h.atLineStart.trans hline) hsplit hc
    (fun _ => head_crlf_ne_newline rest) htoken') (by simp [hsplit]) ⟨halike, .inl hleft⟩ hjoins

end Steps

/-- A step in the one text is followed in the other, unless the step joins two lines. -/
theorem Mirrors.step {s s' next : Scan} (h : Mirrors s s') (hreturn : '\r' ∉ s.rest) (hne : s.rest ≠ [])
    (hstep : s.step = .ok next) :
    Follows s next s' ∨
      joinsLines .code s.rest = true ∧ s'.rest ≠ [] ∧ ∃ e, s'.step = .error e := by
  have hread := (step_eq_ok_iff hne).mp hstep
  have halike := h.alike
  rcases h.rest with hrest' | ⟨hline, after, hrest, hrest'⟩
  · cases hread with
    | lastLine hstart hrest hblanks htext =>
      exact .inl (follows_lastLine halike hrest' hne hstart hrest hblanks htext)
    | emptyLine hstart hrest hblanks htext =>
      -- The text holds no carriage return, so the line is blank or holds a comment.
      rcases htext with htext | rfl | htext
      · exact .inl (follows_emptyLine halike hrest' hstart hrest hblanks (.inl htext))
      · rw [hrest] at hreturn
        simp at hreturn
      · exact .inl (follows_emptyLine halike hrest' hstart hrest hblanks (.inr htext))
    | indented hstart hrest hblanks hc _ hindent =>
      exact .inl (follows_indented halike hrest' hstart hrest hblanks hc hindent)
    | lineEnd hline hrest => exact .inl (follows_lineEnd_crlf halike hline hrest hrest')
    | blank hline hrest hc => exact .inl (follows_blank halike hrest' hline hrest hc)
    | comment hline hrest htext hend =>
      exact .inl (follows_comment halike hrest' hne hline hrest htext hend)
    | @join rest hline hrest =>
      have hsplit : s'.rest = '\\' :: '\r' :: '\n' :: crlf rest := by
        rw [hrest', hrest, crlf_cons (by decide), crlf_newline]
      exact .inr ⟨by rw [hrest]; rfl, by simp [hsplit], _, error_of_join halike hline hsplit⟩
    | token hline hrest hc _ htoken => exact .inl (follows_token halike hrest' hline hrest hc htoken)
  · have hend := (step_eq_ok_iff hne).mpr (.lineEnd hline hrest)
    rw [hstep] at hend
    cases hend
    exact .inl (follows_lineEnd halike hline hrest hrest')

/-- By induction on the steps in the one text: the other text is read to its end as well, or up
to the first backslash that joins two lines. -/
theorem Mirrors.reaches {k : Nat} {s last : Scan} (hreach : Reaches k s last) :
    ∀ {s' : Scan}, Mirrors s s' → '\r' ∉ s.rest → ∃ k' last', Reaches k' s' last' ∧
      (Mirrors last last' ∧ joinsLines .code s.rest = joinsLines .code last.rest ∨
        joinsLines .code s.rest = true ∧ last'.rest ≠ [] ∧ ∃ e, last'.step = .error e) := by
  induction hreach with
  | refl s => exact fun {s'} h _ => ⟨0, s', .refl s', .inl ⟨h, rfl⟩⟩
  | @step k s next last hrest hstep _ ih =>
    intro s' h hreturn
    rcases h.step hreturn hrest hstep with ⟨j, next', hreach, hnext, hjoins⟩ | herror
    · have hsuffix := ((step_eq_ok_iff hrest).mp hstep).suffix
      obtain ⟨k', last', hlast, hend⟩ := ih hnext fun hmem => hreturn (hsuffix.subset hmem)
      rw [← hjoins] at hend
      exact ⟨j + k', last', hreach.trans hlast, hend⟩
    · exact ⟨0, s', .refl s', .inr herror⟩

end Scan

open Scan

/-- A program that is read from a text without carriage returns is also read from the text with the
longer line ends, unless a backslash joins two lines: then that text has an error. -/
theorem parse_withReturns_iff {text : String} (hreturn : '\r' ∉ text.toList) {body : Block Line}
    (h : parse text = .ok body) : parse (withReturns text) = .ok body ↔ ¬ JoinsLines text := by
  obtain ⟨ts, htokens, hbody⟩ := parse_eq_ok.mp h
  obtain ⟨k, last, hreach, hrest, rfl⟩ := tokenize_ok_iff.mp htokens
  have hstart : Mirrors (start text) (start (withReturns text)) :=
    ⟨⟨rfl, rfl, rfl, rfl, .nil⟩, .inl (by simp [start, withReturns])⟩
  obtain ⟨k', last', hreach', hend⟩ := hstart.reaches hreach hreturn
  rcases hend with ⟨hlast, hjoins⟩ | ⟨hjoins, hrest', e, herror⟩
  · have hrest' : last'.rest = [] := by
      -- At the end of the text no part of a line end is left over.
      rcases hlast.rest with hsame | ⟨-, after, hcons, -⟩
      · rw [hsame, hrest]
        rfl
      · rw [hrest] at hcons
        cases hcons
    have hagrees := parseTokens_agrees hlast.alike.finish
    rw [hbody] at hagrees
    have hbody' : parseTokens last'.finish = .ok body := by
      generalize parseTokens last'.finish = outcome at hagrees
      cases hagrees with
      | ok heq => rw [heq]
    rw [hrest] at hjoins
    have hnone : ¬ JoinsLines text := Bool.eq_false_iff.mp hjoins
    have htokens' := tokenize_ok_iff.mpr ⟨k', last', hreach', hrest', rfl⟩
    exact ⟨fun _ => hnone, fun _ => parse_eq_ok.mpr ⟨_, htokens', hbody'⟩⟩
  · refine ⟨fun hparse => ?_, fun hnone => absurd hjoins hnone⟩
    obtain ⟨ts', htokens', -⟩ := parse_eq_ok.mp hparse
    cases (tokenize_error hreach' hrest' herror).symm.trans htokens'

/-- Lines in brackets, blank lines, and a comment and a string with backslashes. -/
def layouts : String := "# a \\\nif x:\n\n    y = [1, # b\n  '#\\\\']\n"

theorem parse_withReturns_layouts : ∃ body, '\r' ∉ layouts.toList ∧ parse layouts = .ok body ∧
    ¬ JoinsLines layouts ∧ parse (withReturns layouts) = .ok body := by
  have hreturn : '\r' ∉ layouts.toList := by decide
  have hjoins : ¬ JoinsLines layouts := by decide
  have hparsed : (parse layouts).isOk = true := by decide +kernel
  cases h : parse layouts with
  | error e =>
    rw [h] at hparsed
    cases hparsed
  | ok body => exact ⟨body, hreturn, rfl, hjoins, (parse_withReturns_iff hreturn h).mpr hjoins⟩

/-- A sum on two lines. -/
def joined : String := "x = 1 + \\\n2\n"

/-- The line ends matter where a backslash joins two lines. -/
theorem not_parse_withReturns : ¬ ∀ (text : String) (body : Block Line), '\r' ∉ text.toList →
    parse text = .ok body →
      ∃ body', parse (withReturns text) = .ok body' ∧ Block.shape body' = Block.shape body := by
  intro hall
  have hparsed : (parse joined).isOk = true := by decide +kernel
  have hfails : (parse (withReturns joined)).isOk = false := by decide +kernel
  cases h : parse joined with
  | error e =>
    rw [h] at hparsed
    cases hparsed
  | ok body =>
    obtain ⟨body', hbody', -⟩ := hall joined body (by decide) h
    rw [hbody'] at hfails
    cases hfails

end ProgramBreeding.Source

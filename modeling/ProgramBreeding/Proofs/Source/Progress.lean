import ProgramBreeding.Proofs.Source.Lines

/-!
# What one step of the scanner reads

Every step reads some characters and finds a token, the end of a line, or nothing.  Only
the step from the blanks of a line to its first token may read none, so the bound that a
text is scanned with is never met.

## Main definitions

* `Scan.Reads` — what a step has read, and what it has found there.
* `Scan.stepsLeft` — how many steps can follow.

## Main results

* `Scan.reads_of_step` — a step reads one of these.
* `tokenize_ok_iff` — a text has the tokens that are found once all of it has been read.
-/

namespace ProgramBreeding.Source

namespace Scan

/-- The blanks that make up the indentation of a line. -/
def AreBlanks (cs : List Char) : Prop := ∀ c ∈ cs, c ∈ [' ', '\t', '\x0c']

/-- A comment without the end of its line. -/
def IsComment (cs : List Char) : Prop := cs.head? = some '#' ∧ '\n' ∉ cs

/-- Reads the token that starts with the character `c`, the first of the characters left. -/
def token (s : Scan) (c : Char) (rest : List Char) : Except ParseError Scan :=
  if c.isDigit || (c == '.' && rest.head?.any Char.isDigit) then s.number
  else if Text.isWordStart c then .ok s.word
  else if c == '"' || c == '\'' then s.string c rest
  else s.operator c

/-- The next position after a token, which is some text of the line. -/
inductive Finds (s : Scan) : Scan → Prop
  | intro {text rest : List Char} {kind : TokenKind} (hrest : s.rest = text ++ rest) (hne : text ≠ [])
      (hkind : isLayout kind = false) (hlast : kind ≠ .endOfInput) :
      Finds s (({ s with depth := kindDepth s.depth kind }.advance text.length rest).emit kind s.column)

/-- The next position after a step, by what has been read there. -/
inductive Reads (s : Scan) : Scan → Prop
  /-- The last line of the text, if it holds no token. -/
  | lastLine {blanks text : List Char} (hstart : s.atLineStart = true)
      (hrest : s.rest = blanks ++ text) (hblanks : AreBlanks blanks)
      (htext : text = [] ∨ IsComment text) :
      Reads s (s.advance (blanks ++ text).length [])
  /-- A line that holds no token. -/
  | emptyLine {blanks text after : List Char} (hstart : s.atLineStart = true)
      (hrest : s.rest = blanks ++ (text ++ '\n' :: after)) (hblanks : AreBlanks blanks)
      (htext : text = [] ∨ text = ['\r'] ∨ IsComment text) :
      Reads s (s.nextLine after)
  /-- The indentation of a line that may hold tokens. -/
  | indented {blanks rest : List Char} {c : Char} {next : Scan} (hstart : s.atLineStart = true)
      (hrest : s.rest = blanks ++ c :: rest) (hblanks : AreBlanks blanks)
      (hc : c ∉ [' ', '\t', '\x0c', '\n', '#']) (hend : c = '\r' → rest.head? ≠ some '\n')
      (hindent : { s.advance blanks.length (c :: rest) with atLineStart := false }.indentTo
        (measure 0 0 blanks).1 = .ok next) :
      Reads s next
  /-- The end of a line. -/
  | lineEnd {rest : List Char} (hline : s.atLineStart = false) (hrest : s.rest = '\n' :: rest) :
      Reads s (s.newline rest)
  /-- A blank between tokens. -/
  | blank {c : Char} {rest : List Char} (hline : s.atLineStart = false) (hrest : s.rest = c :: rest)
      (hc : c ∈ ['\r', ' ', '\t', '\x0c']) :
      Reads s (s.advance 1 rest)
  /-- A comment behind tokens. -/
  | comment {text rest : List Char} (hline : s.atLineStart = false) (hrest : s.rest = text ++ rest)
      (htext : IsComment text) (hend : ∀ c ∈ rest.head?, c = '\n') :
      Reads s (s.advance text.length rest)
  /-- The end of a line that the next one goes on. -/
  | join {rest : List Char} (hline : s.atLineStart = false)
      (hrest : s.rest = '\\' :: '\n' :: rest) :
      Reads s (s.nextLine rest)
  /-- A token. -/
  | token {c : Char} {rest : List Char} {next : Scan} (hline : s.atLineStart = false)
      (hrest : s.rest = c :: rest) (hc : c ∉ ['\n', '\r', ' ', '\t', '\x0c', '#'])
      (hjoin : c = '\\' → rest.head? ≠ some '\n') (htoken : s.token c rest = .ok next) :
      Reads s next

/-! ### Lines without tokens -/

/-- By induction on the blanks: what follows them does not change their width. -/
theorem measure_append {rest : List Char} (hrest : ∀ c ∈ rest.head?, c ∉ [' ', '\t', '\x0c']) :
    ∀ {blanks : List Char}, AreBlanks blanks → ∀ width count : Nat,
      measure width count (blanks ++ rest) =
        ((measure width count blanks).1, count + blanks.length, rest)
  | [], _, width, count => by
    have hnone (c : Char) (more : List Char) (hc : c ∈ [' ', '\t', '\x0c']) : rest ≠ c :: more :=
      fun heq => hrest c (by rw [heq]; rfl) hc
    -- None of the equations of `measure` for blanks applies here.
    rw [List.nil_append, measure.eq_4 _ _ _ (fun more => hnone ' ' more (by decide))
      (fun more => hnone '\t' more (by decide)) (fun more => hnone '\x0c' more (by decide))]
    rfl
  | b :: blanks, hblanks, width, count => by
    obtain ⟨hb, htail⟩ := List.forall_mem_cons.mp hblanks
    have hlength : count + (b :: blanks).length = count + 1 + blanks.length := by
      rw [List.length_cons, Nat.add_comm blanks.length, Nat.add_assoc]
    rw [hlength]
    simp only [List.mem_cons, List.not_mem_nil, or_false] at hb
    rcases hb with rfl | rfl | rfl
    · exact measure_append hrest htail (width + 1) (count + 1)
    · exact measure_append hrest htail ((width / 8 + 1) * 8) (count + 1)
    · exact measure_append hrest htail 0 (count + 1)

theorem exists_blanks (cs : List Char) : ∃ blanks rest, cs = blanks ++ rest ∧ AreBlanks blanks ∧
    ∀ c ∈ rest.head?, c ∉ [' ', '\t', '\x0c'] := by
  refine ⟨cs.takeWhile [' ', '\t', '\x0c'].contains, cs.dropWhile [' ', '\t', '\x0c'].contains,
    List.takeWhile_append_dropWhile.symm, fun c hc => ?_, fun c hc hmem => ?_⟩
  · exact List.contains_iff_mem.mp (List.all_eq_true.mp List.all_takeWhile c hc)
  · have := List.head?_dropWhile_not [' ', '\t', '\x0c'].contains cs
    rw [hc] at this
    exact Bool.noConfusion (this.symm.trans (List.contains_iff_mem.mpr hmem))

/-- A comment goes up to the end of its line. -/
theorem spanComment_append {text rest : List Char} (htext : IsComment text)
    (hend : ∀ c ∈ rest.head?, c = '\n') : spanComment (text ++ rest) = (text, rest) := by
  have hall : ∀ c ∈ text, (c != '\n') = true := fun c hc => bne_iff_ne.mpr fun h => htext.2 (h ▸ hc)
  have hstop : rest.takeWhile (· != '\n') = [] ∧ rest.dropWhile (· != '\n') = rest := by
    cases rest with
    | nil => exact ⟨rfl, rfl⟩
    | cons c rest =>
      rw [hend c rfl]
      exact ⟨rfl, rfl⟩
  unfold spanComment
  rw [List.takeWhile_append_of_pos hall, List.dropWhile_append_of_pos hall, hstop.1, hstop.2,
    List.append_nil]

theorem exists_comment (cs : List Char) : ∃ text rest, '#' :: cs = text ++ rest ∧ IsComment text ∧
    ∀ c ∈ rest.head?, c = '\n' := by
  refine ⟨'#' :: cs.takeWhile (· != '\n'), cs.dropWhile (· != '\n'), ?_, ⟨rfl, fun h => ?_⟩, fun c hc => ?_⟩
  · rw [List.cons_append, List.takeWhile_append_dropWhile]
  · have hmem := (List.mem_cons.mp h).resolve_left (by decide)
    exact absurd (List.all_eq_true.mp List.all_takeWhile _ hmem) (by decide)
  · have := List.head?_dropWhile_not (· != '\n') cs
    rw [hc] at this
    simpa using this

theorem IsComment.eq_cons {text : List Char} (h : IsComment text) : ∃ cs, text = '#' :: cs := by
  obtain ⟨cs, rfl⟩ := List.head?_eq_some_iff.mp h.1
  exact ⟨cs, rfl⟩

theorem not_blank_of_isComment {text rest : List Char} (h : text = [] ∨ IsComment text)
    (hrest : ∀ c ∈ rest.head?, c = '\n') : ∀ c ∈ (text ++ rest).head?, c ∉ [' ', '\t', '\x0c'] := by
  intro c hc
  rcases h with rfl | h
  · rw [hrest c hc]
    decide
  · obtain ⟨cs, rfl⟩ := h.eq_cons
    cases hc
    decide

theorem advance_advance (s : Scan) (m n : Nat) (cs ds : List Char) :
    (s.advance m cs).advance n ds = s.advance (m + n) ds := by
  unfold advance
  rw [Nat.add_assoc]

section Lines

variable {s : Scan} {blanks text : List Char} (hblanks : AreBlanks blanks)
include hblanks

theorem indentation_lastLine (hrest : s.rest = blanks ++ text) (htext : text = [] ∨ IsComment text) :
    s.indentation = .ok (s.advance (blanks ++ text).length []) := by
  have hhead : ∀ c ∈ (text ++ []).head?, c ∉ [' ', '\t', '\x0c'] := not_blank_of_isComment htext nofun
  rw [List.append_nil] at hhead
  unfold indentation
  rw [hrest, measure_append hhead hblanks, Nat.zero_add]
  rcases htext with rfl | hcomment
  · rw [List.append_nil]
  · have hspan : spanComment (text ++ []) = (text, []) := spanComment_append hcomment nofun
    rw [List.append_nil] at hspan
    obtain ⟨cs, rfl⟩ := hcomment.eq_cons
    dsimp only
    rw [hspan, List.length_append, ← advance_advance s blanks.length ('#' :: cs).length ('#' :: cs) []]
    rfl

theorem indentation_emptyLine {after : List Char} (hrest : s.rest = blanks ++ (text ++ '\n' :: after))
    (htext : text = [] ∨ text = ['\r'] ∨ IsComment text) : s.indentation = .ok (s.nextLine after) := by
  have hend : ∀ c ∈ ('\n' :: after).head?, c = '\n' := fun c hc => by cases hc; rfl
  unfold indentation
  rcases htext with rfl | rfl | hcomment
  · rw [hrest, List.nil_append, measure_append (fun c hc => by cases hc; decide) hblanks]
    rfl
  · rw [hrest, measure_append (fun c hc => by cases hc; decide) hblanks]
    rfl
  · have hspan := spanComment_append hcomment hend
    rw [hrest, measure_append (not_blank_of_isComment (.inr hcomment) hend) hblanks]
    obtain ⟨cs, rfl⟩ := hcomment.eq_cons
    dsimp only
    rw [List.cons_append] at hspan ⊢
    rw [hspan]
    rfl

theorem indentation_indented {rest : List Char} {c : Char} (hrest : s.rest = blanks ++ c :: rest)
    (hc : c ∉ [' ', '\t', '\x0c', '\n', '#']) (hend : c = '\r' → rest.head? ≠ some '\n') :
    s.indentation = { s.advance blanks.length (c :: rest) with atLineStart := false }.indentTo
      (measure 0 0 blanks).1 := by
  have hhead : ∀ d ∈ (c :: rest).head?, d ∉ [' ', '\t', '\x0c'] := fun d hd hmem => by
    cases hd
    exact hc (List.mem_append_left ['\n', '#'] hmem)
  unfold indentation
  rw [hrest, measure_append hhead hblanks, Nat.zero_add]
  dsimp only
  split
  · rename_i heq
    cases heq
  · rename_i heq
    cases heq
    simp at hc
  · rename_i heq
    cases heq
    exact absurd rfl (hend rfl)
  · rename_i heq
    cases heq
    simp at hc
  · rfl

end Lines

/-- A line starts with blanks; then its end, a comment, or something else follows. -/
theorem reads_of_indentation {s next : Scan} (hstart : s.atLineStart = true)
    (h : s.indentation = .ok next) : Reads s next := by
  obtain ⟨blanks, rest, hrest, hblanks, hhead⟩ := exists_blanks s.rest
  cases rest with
  | nil =>
    rw [indentation_lastLine hblanks hrest (.inl rfl)] at h
    cases h
    exact .lastLine hstart hrest hblanks (.inl rfl)
  | cons c rest =>
    have hempty (text : List Char) {after : List Char} (hcons : c :: rest = text ++ '\n' :: after)
        (htext : text = [] ∨ text = ['\r'] ∨ IsComment text) : Reads s next := by
      rw [hcons] at hrest
      rw [indentation_emptyLine hblanks hrest htext] at h
      cases h
      exact .emptyLine hstart hrest hblanks htext
    by_cases hnewline : c = '\n'
    · exact hempty [] (by rw [hnewline]; rfl) (.inl rfl)
    -- A carriage return that ends no line is read like the start of a token.
    by_cases hreturn : c = '\r' ∧ rest.head? = some '\n'
    · obtain ⟨rfl, hnext⟩ := hreturn
      obtain ⟨after, rfl⟩ := List.head?_eq_some_iff.mp hnext
      exact hempty ['\r'] rfl (.inr (.inl rfl))
    by_cases hcomment : c = '#'
    · subst hcomment
      obtain ⟨text, after, hcs, htext, hend⟩ := exists_comment rest
      cases after with
      | nil =>
        rw [hcs, List.append_nil] at hrest
        rw [indentation_lastLine hblanks hrest (.inr htext)] at h
        cases h
        exact .lastLine hstart hrest hblanks (.inr htext)
      | cons d after =>
        cases hend d rfl
        exact hempty text hcs (.inr (.inr htext))
    have hc : c ∉ [' ', '\t', '\x0c', '\n', '#'] := fun hmem => by
      rcases List.mem_append.mp (show c ∈ [' ', '\t', '\x0c'] ++ ['\n', '#'] from hmem) with hmem | hmem
      · exact hhead c rfl hmem
      · exact (List.mem_pair.mp hmem).elim hnewline hcomment
    have hend : c = '\r' → rest.head? ≠ some '\n' := fun hc hnext => hreturn ⟨hc, hnext⟩
    rw [indentation_indented hblanks hrest hc hend] at h
    exact .indented hstart hrest hblanks hc hend h

/-! ### Tokens -/

/-- The text that a number stands at the start of. -/
def NumberSpan.whole (n : NumberSpan) : List Char := n.text ++ n.rest

namespace NumberSpan

theorem whole_addDigits (n : NumberSpan) : n.addDigits.whole = n.whole := by
  simp [addDigits, whole, List.append_assoc]

theorem whole_addFraction (n : NumberSpan) : n.addFraction.whole = n.whole := by
  unfold addFraction
  split
  · rename_i after hrest
    split
    · simp [whole, hrest]
    · split
      · rw [whole_addDigits]
        simp [whole, hrest]
      · split <;> simp [whole, hrest]
  · rfl

/-- A sign in front of a power is split off. -/
theorem sign_append (p : Char → Bool) (cs : List Char) :
    (cs.take 1).filter p ++ cs.drop ((cs.take 1).filter p).length = cs := by
  cases cs with
  | nil => rfl
  | cons c cs => cases hc : p c <;> simp [hc]

theorem whole_addExponent (n : NumberSpan) : n.addExponent.whole = n.whole := by
  unfold addExponent
  split
  · rename_i e after hrest
    split
    · dsimp only
      split
      · rw [whole_addDigits, whole, whole, hrest, List.append_assoc, List.cons_append, sign_append]
      · rfl
    · rfl
  · rfl

theorem text_addDigits_ne_nil {n : NumberSpan} (h : n.text ≠ []) : n.addDigits.text ≠ [] := by
  simp [addDigits, h]

theorem text_addFraction_ne_nil {n : NumberSpan} (h : n.text ≠ []) : n.addFraction.text ≠ [] := by
  unfold addFraction
  split
  · split
    · simp
    · split
      · exact text_addDigits_ne_nil (by simp)
      · split <;> simp [h]
  · exact h

theorem text_addExponent_ne_nil {n : NumberSpan} (h : n.text ≠ []) : n.addExponent.text ≠ [] := by
  unfold addExponent
  split
  · split
    · dsimp only
      split
      · exact text_addDigits_ne_nil (by simp)
      · exact h
    · exact h
  · exact h

/-! A property of digits, points and exponents is one of all characters of a number. -/

section Characters

variable {P : Char → Prop} (hdigits : ∀ c, isDigitPart c = true → P c) {n : NumberSpan} (h : ∀ c ∈ n.text, P c)
include hdigits h

theorem forall_mem_addDigits : ∀ c ∈ n.addDigits.text, P c := by
  refine List.forall_mem_append.mpr ⟨h, fun c hc => ?_⟩
  exact hdigits c (List.all_eq_true.mp List.all_takeWhile c hc)

theorem forall_mem_addFraction (hpoint : P '.') : ∀ c ∈ n.addFraction.text, P c := by
  have hpointed : ∀ c ∈ n.text ++ ['.'], P c := List.forall_mem_append.mpr ⟨h, List.forall_mem_singleton.mpr hpoint⟩
  unfold addFraction
  split
  · split
    · exact hpointed
    · split
      · exact forall_mem_addDigits hdigits hpointed
      · split
        · exact h
        · exact hpointed
  · exact h

theorem forall_mem_addExponent (hletter : P 'e' ∧ P 'E') (hsign : P '+' ∧ P '-') :
    ∀ c ∈ n.addExponent.text, P c := by
  unfold addExponent
  split
  · rename_i e after _
    split
    · rename_i he
      have he : P e := by
        simp only [Bool.or_eq_true, beq_iff_eq] at he
        rcases he with rfl | rfl
        · exact hletter.1
        · exact hletter.2
      have hsign : ∀ c ∈ (after.take 1).filter fun c => c == '+' || c == '-', P c := fun c hc => by
        have hc := (List.mem_filter.mp hc).2
        simp only [Bool.or_eq_true, beq_iff_eq] at hc
        rcases hc with rfl | rfl
        · exact hsign.1
        · exact hsign.2
      dsimp only
      split
      · exact forall_mem_addDigits hdigits (List.forall_mem_append.mpr ⟨h, List.forall_mem_cons.mpr ⟨he, hsign⟩⟩)
      · exact h
    · exact h
  · exact h

end Characters

end NumberSpan

theorem spanNumber_append (cs : List Char) : (spanNumber cs).text ++ (spanNumber cs).rest = cs := by
  show (spanNumber cs).whole = cs
  unfold spanNumber
  rw [NumberSpan.whole_addExponent, NumberSpan.whole_addFraction, NumberSpan.whole_addDigits]
  rfl

/-- The characters of numbers. -/
theorem forall_mem_spanNumber {P : Char → Prop} (hdigits : ∀ c, isDigitPart c = true → P c)
    (hmarks : ∀ c ∈ ['.', 'e', 'E', '+', '-'], P c) (cs : List Char) : ∀ c ∈ (spanNumber cs).text, P c := by
  have hnone : ∀ c ∈ (NumberSpan.mk [] false cs).text, P c := fun _ hc => absurd hc List.not_mem_nil
  refine NumberSpan.forall_mem_addExponent hdigits ?_ ⟨hmarks 'e' (by decide), hmarks 'E' (by decide)⟩
    ⟨hmarks '+' (by decide), hmarks '-' (by decide)⟩
  refine NumberSpan.forall_mem_addFraction hdigits ?_ (hmarks '.' (by decide))
  exact NumberSpan.forall_mem_addDigits hdigits hnone

/-- A digit starts a number, and so does a point before a digit. -/
theorem spanNumber_text_ne_nil {c : Char} {rest : List Char}
    (h : (c.isDigit || (c == '.' && rest.head?.any Char.isDigit)) = true) :
    (spanNumber (c :: rest)).text ≠ [] := by
  refine NumberSpan.text_addExponent_ne_nil ?_
  cases hc : c.isDigit with
  | true =>
    refine NumberSpan.text_addFraction_ne_nil ?_
    simp [NumberSpan.addDigits, isDigitPart, hc]
  | false =>
    rw [hc, Bool.false_or, Bool.and_eq_true, beq_iff_eq] at h
    obtain ⟨rfl, hnext⟩ := h
    cases rest with
    | nil => cases hnext
    | cons d rest =>
      have hd : d.isDigit = true := hnext
      have hpoint : NumberSpan.addDigits ⟨[], false, '.' :: d :: rest⟩ = ⟨[], false, '.' :: d :: rest⟩ :=
        rfl
      rw [hpoint]
      simp only [NumberSpan.addFraction, hd, if_true]
      exact NumberSpan.text_addDigits_ne_nil (by simp)

theorem numberKind_plain {n : NumberSpan} {kind : TokenKind} (h : numberKind n = .ok kind) :
    isLayout kind = false ∧ kind ≠ .endOfInput ∧ ∀ depth, kindDepth depth kind = depth := by
  unfold numberKind at h
  extract_lets text at h
  split at h
  · split at h
    · cases h
    · split at h
      · cases h
        exact ⟨rfl, nofun, fun _ => rfl⟩
      · cases h
  · split at h
    · cases h
    · cases h
      exact ⟨rfl, nofun, fun _ => rfl⟩

section Tokens

variable {s next : Scan} {c : Char} {rest : List Char}

theorem finds_of_number (hrest : s.rest = c :: rest)
    (hc : (c.isDigit || (c == '.' && rest.head?.any Char.isDigit)) = true)
    (h : s.number = .ok next) : Finds s next := by
  have hne := spanNumber_text_ne_nil hc
  have hwhole := spanNumber_append s.rest
  rw [← hrest] at hne
  unfold number at h
  extract_lets n after at h
  split at h
  · cases h
  · split at h
    · cases h
    · rename_i kind hkind
      cases h
      obtain ⟨hplain, hlast, hdepth⟩ := numberKind_plain hkind
      have htoken := Finds.intro hwhole.symm hne hplain hlast
      rwa [hdepth] at htoken

theorem finds_of_word (hrest : s.rest = c :: rest) (hc : Text.isWordStart c = true) : Finds s s.word := by
  unfold word
  extract_lets cs text kind
  have happend : s.rest = cs ++ s.rest.dropWhile Text.isWordPart :=
    List.takeWhile_append_dropWhile.symm
  have hne : cs ≠ [] := by
    unfold cs
    rw [hrest, List.takeWhile_cons_of_pos (isWordPart_of_isWordStart hc)]
    exact List.cons_ne_nil _ _
  have hkind : isLayout kind = false ∧ kind ≠ .endOfInput ∧ kindDepth s.depth kind = s.depth := by
    unfold kind
    cases hkeyword : Symbol.keyword? text with
    | none => exact ⟨rfl, nofun, rfl⟩
    | some keyword =>
      exact ⟨rfl, nofun, depthAfter_keyword (List.mem_of_find?_eq_some hkeyword) s.depth⟩
  obtain ⟨hplain, hlast, hdepth⟩ := hkind
  have htoken := Finds.intro happend hne hplain hlast
  rwa [hdepth] at htoken

theorem stringAfter_split {quote : Char} {value : String} {after : Scan} :
    ∀ {found : List Char} {count : Nat} {cs : List Char},
      s.stringAfter quote found count cs = .ok (value, after) →
        ∃ text rest, cs = text ++ rest ∧ after = s.advance (count + text.length) rest := by
  intro found count cs h
  fun_induction stringAfter s quote found count cs with
  | case1 | case2 | case4 | case5 => cases h
  | case3 found count c rest hnewline hquote =>
    cases h
    exact ⟨[c], rest, rfl, rfl⟩
  | case6 found count c hnewline hquote hescape e after' escaped hunescape ih =>
    obtain ⟨text, rest, rfl, rfl⟩ := ih h
    exact ⟨c :: e :: text, rest, rfl, by simp only [List.length_cons]; congr 1; omega⟩
  | case7 found count c rest hnewline hquote hescape ih =>
    obtain ⟨text, rest, rfl, rfl⟩ := ih h
    exact ⟨c :: text, rest, rfl, by simp only [List.length_cons]; congr 1; omega⟩

theorem finds_of_string (hrest : s.rest = c :: rest) (h : s.string c rest = .ok next) : Finds s next := by
  unfold string at h
  split at h
  · cases h
  · split at h
    · cases h
    · rename_i value after hafter
      cases h
      obtain ⟨text, tail, rfl, rfl⟩ := stringAfter_split hafter
      have htoken := @Finds.intro s (c :: text) tail (.str value) hrest (List.cons_ne_nil _ _) rfl nofun
      rwa [List.length_cons, Nat.add_comm] at htoken

theorem finds_of_operator (h : s.operator c = .ok next) : Finds s next := by
  have hspelled : ∀ op ∈ Symbol.spelledOperators, op.1 ≠ [] := by decide
  unfold operator at h
  split at h
  · cases h
  · rename_i spelling op hfind
    cases h
    have hprefix : spelling.isPrefixOf s.rest = true :=
      List.find?_some (p := fun op : List Char × Symbol => op.1.isPrefixOf s.rest) hfind
    obtain ⟨tail, htail⟩ := List.isPrefixOf_iff_prefix.mp hprefix
    have hdrop : s.rest.drop spelling.length = tail := by rw [← htail, List.drop_left]
    rw [hdrop]
    have hne := hspelled _ (List.mem_of_find?_eq_some hfind)
    exact @Finds.intro s spelling tail (.symbol op) htail.symm hne rfl nofun

/-- A token is some text of the line, and no start or end of a line or block. -/
theorem finds_of_token (hrest : s.rest = c :: rest) (h : s.token c rest = .ok next) : Finds s next := by
  unfold token at h
  split at h
  · rename_i hc
    exact finds_of_number hrest hc h
  split at h
  · rename_i hc
    cases h
    exact finds_of_word hrest hc
  split at h
  · exact finds_of_string hrest h
  · exact finds_of_operator h

theorem lexeme_eq_token (hc : c ∉ ['\n', '\r', ' ', '\t', '\x0c', '#'])
    (hjoin : c = '\\' → rest.head? ≠ some '\n') : s.lexeme c rest = s.token c rest := by
  have hne : ∀ d ∈ ['\n', '\r', ' ', '\t', '\x0c', '#'], (c == d) = false := fun d hd =>
    beq_eq_false_iff_ne.mpr fun h => hc (h ▸ hd)
  have hjoin : ¬ (c == '\\' && rest.head? == some '\n') = true := fun h => by
    rw [Bool.and_eq_true, beq_iff_eq, beq_iff_eq] at h
    exact hjoin h.1 h.2
  unfold lexeme
  rw [hne '\n' (by decide), hne '\r' (by decide), hne ' ' (by decide), hne '\t' (by decide),
    hne '\x0c' (by decide), hne '#' (by decide), if_neg hjoin]
  rfl

theorem lexeme_comment {text : List Char} (htext : IsComment text) (hend : ∀ c ∈ rest.head?, c = '\n')
    (hrest : s.rest = text ++ rest) : ∃ c cs, s.rest = c :: cs ∧
      s.lexeme c cs = .ok (s.advance text.length rest) := by
  have hspan := spanComment_append htext hend
  obtain ⟨cs, rfl⟩ := htext.eq_cons
  refine ⟨'#', cs ++ rest, hrest, ?_⟩
  show Except.ok (s.advance (spanComment s.rest).1.length (spanComment s.rest).2) = _
  rw [hrest, hspan]

theorem reads_of_lexeme (hline : s.atLineStart = false) (hrest : s.rest = c :: rest)
    (h : s.lexeme c rest = .ok next) : Reads s next := by
  by_cases hnewline : c = '\n'
  · subst hnewline
    cases h
    exact .lineEnd hline hrest
  by_cases hblank : c ∈ ['\r', ' ', '\t', '\x0c']
  · have hread := Reads.blank hline hrest hblank
    simp only [List.mem_cons, List.not_mem_nil, or_false] at hblank
    rcases hblank with rfl | rfl | rfl | rfl <;> cases h <;> exact hread
  by_cases hcomment : c = '#'
  · subst hcomment
    obtain ⟨text, after, hcs, htext, hend⟩ := exists_comment rest
    rw [hcs] at hrest
    obtain ⟨c', cs', hrest', hlexeme⟩ := lexeme_comment htext hend hrest
    rw [hrest, ← hcs] at hrest'
    cases hrest'
    rw [hlexeme] at h
    cases h
    exact .comment hline hrest htext hend
  by_cases hjoin : c = '\\' ∧ rest.head? = some '\n'
  · obtain ⟨rfl, hnext⟩ := hjoin
    obtain ⟨after, rfl⟩ := List.head?_eq_some_iff.mp hnext
    cases h
    exact .join hline hrest
  have hc : c ∉ ['\n', '\r', ' ', '\t', '\x0c', '#'] := by
    simp only [List.mem_cons, List.not_mem_nil, or_false, not_or] at hblank ⊢
    exact ⟨hnewline, hblank.1, hblank.2.1, hblank.2.2.1, hblank.2.2.2, hcomment⟩
  rw [lexeme_eq_token hc fun hc hnext => hjoin ⟨hc, hnext⟩] at h
  exact .token hline hrest hc (fun hc hnext => hjoin ⟨hc, hnext⟩) h

end Tokens

theorem step_of_line {s : Scan} {c : Char} {rest : List Char} (hline : s.atLineStart = false)
    (hrest : s.rest = c :: rest) : s.step = s.lexeme c rest := by
  unfold step
  rw [hline, hrest]
  rfl

/-- A step does what can be read at its position, and nothing else. -/
theorem step_eq_ok_iff {s next : Scan} (hne : s.rest ≠ []) : s.step = .ok next ↔ Reads s next := by
  constructor
  · intro h
    cases hstart : s.atLineStart with
    | true =>
      unfold step at h
      rw [hstart] at h
      exact reads_of_indentation hstart h
    | false =>
      obtain ⟨c, rest, hrest⟩ := List.exists_cons_of_ne_nil hne
      rw [step_of_line hstart hrest] at h
      exact reads_of_lexeme hstart hrest h
  · intro h
    have hindentation (hstart : s.atLineStart = true) : s.step = s.indentation := by
      unfold step
      rw [hstart]
      rfl
    cases h with
    | lastLine hstart hrest hblanks htext =>
      rw [hindentation hstart, indentation_lastLine hblanks hrest htext]
    | emptyLine hstart hrest hblanks htext =>
      rw [hindentation hstart, indentation_emptyLine hblanks hrest htext]
    | indented hstart hrest hblanks hc hend hindent =>
      rw [hindentation hstart, indentation_indented hblanks hrest hc hend, hindent]
    | lineEnd hline hrest => rw [step_of_line hline hrest]; rfl
    | blank hline hrest hc =>
      rw [step_of_line hline hrest]
      simp only [List.mem_cons, List.not_mem_nil, or_false] at hc
      rcases hc with rfl | rfl | rfl | rfl <;> rfl
    | comment hline hrest htext hend =>
      obtain ⟨c, cs, hcons, hlexeme⟩ := lexeme_comment htext hend hrest
      rw [step_of_line hline hcons, hlexeme]
    | join hline hrest => rw [step_of_line hline hrest]; rfl
    | token hline hrest hc hjoin htoken =>
      rw [step_of_line hline hrest, lexeme_eq_token hc hjoin, htoken]

/-! ### Progress -/

/-- A bound on the number of steps that can follow a position. -/
def stepsLeft (s : Scan) : Nat := 2 * s.rest.length + s.atLineStart.toNat - 1

theorem closeBlocks_position (width : Nat) : ∀ (indents : List Nat) (s : Scan),
    (closeBlocks width indents s).rest = s.rest ∧
      (closeBlocks width indents s).atLineStart = s.atLineStart
  | [], _ => ⟨rfl, rfl⟩
  | w :: outer, s => by
    unfold closeBlocks
    split
    · exact closeBlocks_position width outer (s.emit .dedent 1)
    · exact ⟨rfl, rfl⟩

theorem indentTo_position {s next : Scan} {width : Nat} (h : s.indentTo width = .ok next) :
    next.rest = s.rest ∧ next.atLineStart = s.atLineStart := by
  unfold indentTo at h
  split at h
  · cases h
    exact ⟨rfl, rfl⟩
  · dsimp only at h
    split at h
    · cases h
      exact closeBlocks_position width s.indents s
    · cases h

/-- What a step reads stands at the start of the text that is left. -/
theorem Reads.suffix {s next : Scan} (h : Reads s next) : next.rest <:+ s.rest := by
  cases h with
  | lastLine => exact List.nil_suffix
  | @emptyLine blanks text after _ hrest =>
    exact ⟨blanks ++ (text ++ ['\n']), by rw [hrest]; simp [nextLine]⟩
  | indented _ hrest _ _ _ hindent =>
    rw [(indentTo_position hindent).1, hrest]
    exact List.suffix_append _ _
  | lineEnd _ hrest => exact ⟨['\n'], hrest.symm⟩
  | @blank c _ _ hrest => exact ⟨[c], hrest.symm⟩
  | comment _ hrest => exact ⟨_, hrest.symm⟩
  | join _ hrest => exact ⟨['\\', '\n'], hrest.symm⟩
  | token _ hrest _ _ htoken =>
    obtain ⟨happend⟩ := finds_of_token hrest htoken
    exact ⟨_, happend.symm⟩

/-- Every step reads a character, or it has read the indentation of a line. -/
theorem Reads.consumes {s next : Scan} (h : Reads s next) (hrest : s.rest ≠ []) :
    next.rest.length < s.rest.length ∨
      next.rest.length ≤ s.rest.length ∧ s.atLineStart = true ∧ next.atLineStart = false := by
  have htext (text : List Char) {rest : List Char} (hne : text ≠ []) (happend : s.rest = text ++ rest) :
      rest.length < s.rest.length := by
    rw [happend, List.length_append]
    have := List.length_pos_iff.mpr hne
    omega
  have hskip {before text rest : List Char} (happend : s.rest = before ++ (text ++ '\n' :: rest)) :
      rest.length < s.rest.length := by
    rw [happend]
    simp only [List.length_append, List.length_cons]
    omega
  cases h with
  | lastLine => exact .inl (List.length_pos_iff.mpr hrest)
  | emptyLine _ happend => exact .inl (hskip happend)
  | indented hstart happend _ _ _ hindent =>
    obtain ⟨hleft, hline⟩ := indentTo_position hindent
    refine .inr ⟨?_, hstart, hline⟩
    rw [hleft, happend, List.length_append]
    exact Nat.le_add_left _ _
  | lineEnd _ happend => exact .inl (htext ['\n'] (List.cons_ne_nil _ _) happend)
  | @blank c rest _ happend => exact .inl (htext [c] (List.cons_ne_nil _ _) happend)
  | comment _ happend hcomment =>
    exact .inl (htext _ (fun hnil => by rw [hnil] at hcomment; cases hcomment.1) happend)
  | join _ happend => exact .inl (htext ['\\', '\n'] (List.cons_ne_nil _ _) happend)
  | token _ hcons _ _ htoken =>
    obtain ⟨happend, hne⟩ := finds_of_token hcons htoken
    exact .inl (htext _ hne happend)

theorem Reads.stepsLeft_lt {s next : Scan} (h : Reads s next) (hrest : s.rest ≠ []) :
    next.stepsLeft < s.stepsLeft := by
  have hpos := List.length_pos_iff.mpr hrest
  have hnext := Bool.toNat_le next.atLineStart
  unfold stepsLeft
  rcases h.consumes hrest with hlt | ⟨hle, hstart, hline⟩
  · omega
  · rw [hstart, hline, Bool.toNat_true, Bool.toNat_false]
    omega

theorem Reaches.stepsLeft_le {k : Nat} {s last : Scan} (h : Reaches k s last) :
    last.stepsLeft + k ≤ s.stepsLeft := by
  induction h with
  | refl s => exact Nat.le_refl _
  | step hrest hstep _ ih =>
    have := ((step_eq_ok_iff hrest).mp hstep).stepsLeft_lt hrest
    omega

/-- A run without an error takes some steps, and it only stops before the end of the text
when it has taken all it may. -/
theorem reaches_of_run : ∀ {n : Nat} {s last : Scan}, run n s = .ok last →
    ∃ k, Reaches k s last ∧ (last.rest = [] ∨ k = n)
  | 0, s, last, h => by
    cases h
    exact ⟨0, .refl s, .inr rfl⟩
  | n + 1, s, last, h => by
    unfold run at h
    split at h
    · rename_i hnil
      cases h
      exact ⟨0, .refl s, .inl hnil⟩
    · rename_i hcons
      split at h
      · cases h
      · rename_i next hstep
        obtain ⟨k, hreach, hend⟩ := reaches_of_run h
        refine ⟨k + 1, .step (by simp [hcons]) hstep hreach, hend.imp_right fun hk => by rw [hk]⟩

/-- The start of a text. -/
def start (text : String) : Scan := { rest := text.toList }

theorem stepsLeft_start (text : String) : (start text).stepsLeft = 2 * text.toList.length := rfl

end Scan

open Scan

/-- The tokens of a text are those found when all of it has been read. -/
theorem tokenize_ok_iff {text : String} {ts : List Token} :
    tokenize text = .ok ts ↔
      ∃ k last, Reaches k (start text) last ∧ last.rest = [] ∧ last.finish = ts := by
  unfold tokenize
  dsimp only
  constructor
  · intro h
    split at h
    · cases h
    · rename_i last hrun
      cases h
      obtain ⟨k, hreach, hend⟩ := reaches_of_run hrun
      -- A run that has taken all its steps has none left, so nothing is left to be read.
      refine ⟨k, last, hreach, hend.elim id fun hk => ?_, rfl⟩
      have hsteps : last.stepsLeft + k ≤ (start text).stepsLeft := hreach.stepsLeft_le
      rw [stepsLeft_start, hk] at hsteps
      have hnone : last.stepsLeft = 0 := by omega
      unfold stepsLeft at hnone
      exact List.length_eq_zero_iff.mp (by omega)
  · rintro ⟨k, last, hreach, hrest, rfl⟩
    have hsteps := hreach.stepsLeft_le
    rw [stepsLeft_start] at hsteps
    have hlength : 2 * text.toList.length = 2 * text.toList.length - k + k := by omega
    have hrun : run (2 * text.toList.length) (start text) = .ok last := by
      rw [hlength, hreach.run_eq, run_of_rest_nil hrest]
    rw [show ({ rest := text.toList } : Scan) = start text from rfl, hrun]

/-- An error that the scanner comes to is the error of the text. -/
theorem tokenize_error {text : String} {k : Nat} {last : Scan} {e : ParseError}
    (hreach : Reaches k (start text) last) (hrest : last.rest ≠ []) (hstep : last.step = .error e) :
    tokenize text = .error e := by
  have hsteps := hreach.stepsLeft_le
  have hpos := List.length_pos_iff.mpr hrest
  rw [stepsLeft_start] at hsteps
  unfold stepsLeft at hsteps
  obtain ⟨n, hlength⟩ : ∃ n, 2 * text.toList.length = n + 1 + k :=
    ⟨2 * text.toList.length - k - 1, by omega⟩
  have hrun : run (2 * text.toList.length) (start text) = .error e := by
    rw [hlength, hreach.run_eq]
    unfold run
    rw [hstep]
    split
    · rename_i hnil
      exact absurd hnil hrest
    · rfl
  unfold tokenize
  dsimp only
  rw [show ({ rest := text.toList } : Scan) = start text from rfl, hrun]

end ProgramBreeding.Source

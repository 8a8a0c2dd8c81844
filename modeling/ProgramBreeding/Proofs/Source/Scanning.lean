import Mathlib.Data.List.Find
import ProgramBreeding.Proofs.Source.Lexemes

/-!
# Reading one lexeme after the other

How the scanner reads text that is put together from pieces.

## Main definitions

* `Scan.Reaches` — a number of steps from one position to another.
* `Lexes` — a piece of a line is read as certain tokens, wherever it stands.
* `Ends` — what may follow a name or a constant.

## Design notes

A piece is read in at most as many steps as it has characters, so the bound of the
scanner is never met.  Which characters may follow a piece is a condition on the text
after it: a longer word, number or operator must not start there.
-/

namespace ProgramBreeding.Source

namespace Scan

/-- Some number of steps lead from one position to another. -/
inductive Reaches : Nat → Scan → Scan → Prop
  | refl (s : Scan) : Reaches 0 s s
  | step {k : Nat} {s next last : Scan} (hrest : s.rest ≠ []) (hstep : s.step = .ok next)
      (hreach : Reaches k next last) : Reaches (k + 1) s last

theorem Reaches.one {s next : Scan} (hrest : s.rest ≠ []) (hstep : s.step = .ok next) :
    Reaches 1 s next :=
  .step hrest hstep (.refl next)

theorem Reaches.trans {j k : Nat} {s between last : Scan} (hfirst : Reaches j s between)
    (hsecond : Reaches k between last) : Reaches (j + k) s last := by
  induction hfirst with
  | refl s => rwa [Nat.zero_add]
  | step hrest hstep _ ih =>
    rw [Nat.add_right_comm]
    exact .step hrest hstep (ih hsecond)

/-- A run is at least as long as the steps that are known of it. -/
theorem Reaches.run_eq {k : Nat} {s last : Scan} (h : Reaches k s last) (n : Nat) :
    run (n + k) s = run n last := by
  induction h with
  | refl s => rfl
  | step hrest hstep _ ih =>
    rw [← ih, ← Nat.add_assoc]
    conv => lhs; unfold run
    rw [hstep]
    split
    · rename_i hnil
      exact absurd hnil hrest
    · rfl

/-- The tokens found, in order and without positions. -/
def kinds (s : Scan) : List TokenKind := (s.tokens.map Token.kind).reverse

@[simp] theorem kinds_emit (s : Scan) (kind : TokenKind) (column : Nat) :
    (s.emit kind column).kinds = s.kinds ++ [kind] := by
  simp [kinds, emit]

/-- The number of open brackets after a token. -/
def kindDepth (depth : Nat) : TokenKind → Nat
  | .symbol symbol => depthAfter depth symbol
  | _ => depth

/-- Inside a line some tokens have been added, and the text after them is left. -/
structure Passes (s next : Scan) (tail : List Char) (kinds : List TokenKind) : Prop where
  rest : next.rest = tail
  atLineStart : next.atLineStart = s.atLineStart
  indents : next.indents = s.indents
  depth : next.depth = kinds.foldl kindDepth s.depth
  kinds : next.kinds = s.kinds ++ kinds

theorem Passes.trans {s between last : Scan} {tail tail' : List Char}
    {kinds kinds' : List TokenKind} (hfirst : s.Passes between tail kinds)
    (hsecond : between.Passes last tail' kinds') : s.Passes last tail' (kinds ++ kinds') where
  rest := hsecond.rest
  atLineStart := hsecond.atLineStart.trans hfirst.atLineStart
  indents := hsecond.indents.trans hfirst.indents
  depth := by rw [hsecond.depth, hfirst.depth, List.foldl_append]
  kinds := by rw [hsecond.kinds, hfirst.kinds, List.append_assoc]

/-- A token that is no bracket. -/
theorem passes_emit {s : Scan} {count column : Nat} {tail : List Char} {kind : TokenKind}
    (hkind : ∀ depth, kindDepth depth kind = depth) :
    s.Passes ((s.advance count tail).emit kind column) tail [kind] where
  rest := rfl
  atLineStart := rfl
  indents := rfl
  depth := (hkind s.depth).symm
  kinds := kinds_emit _ _ _

end Scan

open Scan

/-- Wherever the text stands inside a line, followed by what the condition allows, it is
read as the given tokens. -/
def Lexes (condition : List Char → Prop) (text : List Char) (kinds : List TokenKind) : Prop :=
  ∀ (s : Scan) (tail : List Char), s.rest = text ++ tail → s.atLineStart = false →
    condition tail → ∃ k next, k ≤ text.length ∧ Reaches k s next ∧ s.Passes next tail kinds

section Lexes

variable {condition weaker : List Char → Prop} {text more : List Char}
  {kinds moreKinds : List TokenKind}

theorem Lexes.nil : Lexes condition [] [] :=
  fun s _ hrest _ _ => ⟨0, s, Nat.le_refl 0, .refl s, hrest, rfl, rfl, rfl, by simp⟩

theorem Lexes.mono (himp : ∀ tail, weaker tail → condition tail) (h : Lexes condition text kinds) :
    Lexes weaker text kinds :=
  fun s tail hrest hline htail => h s tail hrest hline (himp tail htail)

/-- Pieces that may stand next to each other are read one after the other. -/
theorem Lexes.append (hfirst : Lexes condition text kinds) (hsecond : Lexes weaker more moreKinds)
    (hmeet : ∀ tail, weaker tail → condition (more ++ tail)) :
    Lexes weaker (text ++ more) (kinds ++ moreKinds) := by
  intro s tail hrest hline htail
  obtain ⟨j, between, hj, hreach, hpass⟩ :=
    hfirst s (more ++ tail) (by rw [hrest, List.append_assoc]) hline (hmeet tail htail)
  obtain ⟨k, next, hk, hreach', hpass'⟩ :=
    hsecond between tail hpass.rest (by rw [hpass.atLineStart, hline]) htail
  refine ⟨j + k, next, ?_, hreach.trans hreach', hpass.trans hpass'⟩
  rw [List.length_append]
  omega

/-- A piece that is read in one step. -/
theorem Lexes.of_lexeme {c : Char} {cs : List Char}
    (h : ∀ (s : Scan) (tail : List Char), s.rest = c :: cs ++ tail → condition tail →
      ∃ next, s.lexeme c (cs ++ tail) = .ok next ∧ s.Passes next tail kinds) :
    Lexes condition (c :: cs) kinds := by
  intro s tail hrest hline htail
  obtain ⟨next, hlexeme, hpass⟩ := h s tail hrest htail
  refine ⟨1, next, by simp, .one (by simp [hrest]) ?_, hpass⟩
  unfold Scan.step
  rw [hline, hrest]
  exact hlexeme

theorem lexes_space : Lexes condition [' '] [] :=
  .of_lexeme fun s tail _ _ => ⟨s.advance 1 tail, rfl, rfl, rfl, rfl, rfl, by simp [advance, Scan.kinds]⟩

end Lexes

/-! ### What may follow -/

/-- The characters that end a name or a constant. -/
def endings : List Char := [' ', '(', ')', '[', ']', ',', ':', '\n']

/-- What may follow a name or a constant: a blank, a bracket, a separator, or the point
before an attribute. -/
def Ends (tail : List Char) : Prop :=
  (∀ c ∈ tail.head?, c ∈ endings) ∨
    ∃ d rest, tail = '.' :: d :: rest ∧ Text.isWordStart d = true

theorem ends_cons {c : Char} (h : c ∈ endings) (tail : List Char) : Ends (c :: tail) :=
  .inl fun _ hd => by cases hd; exact h

theorem Ends.head_mem {tail : List Char} (h : Ends tail) : ∀ c ∈ tail.head?, c ∈ '.' :: endings := by
  intro c hc
  rcases h with h | ⟨d, rest, rfl, -⟩
  · exact List.mem_cons_of_mem _ (h c hc)
  · cases hc
    exact List.mem_cons_self

/-- What may follow an operator: nothing that could belong to a longer one. -/
def OperatorEnds (tail : List Char) : Prop :=
  ∀ c ∈ tail.head?, c ∉ ['=', '>', '/', '*']

theorem isWordPart_of_isDigitPart {c : Char} (h : isDigitPart c = true) :
    Text.isWordPart c = true := by
  unfold isDigitPart at h
  unfold Text.isWordPart Text.isAlphanumeric Text.isNumeric
  rcases (Bool.or_eq_true _ _).mp h with h | h
  · have hlt : c.toNat < 128 := by
      simp only [Char.isDigit, Bool.and_eq_true, decide_eq_true_eq] at h
      have := UInt32.le_iff_toNat_le.mp h.2
      exact Nat.lt_of_le_of_lt this (by decide)
    simp [hlt, h]
  · simp [h]

theorem Ends.head_not_isWordPart {tail : List Char} (h : Ends tail) :
    ∀ c ∈ tail.head?, Text.isWordPart c = false := by
  have hclass : ∀ c ∈ '.' :: endings, Text.isWordPart c = false := by decide
  exact fun c hc => hclass c (h.head_mem c hc)

theorem Ends.head_not_isDigitPart {tail : List Char} (h : Ends tail) :
    ∀ c ∈ tail.head?, isDigitPart c = false := by
  intro c hc
  have hword := h.head_not_isWordPart c hc
  cases hdigit : isDigitPart c with
  | false => rfl
  | true => rw [isWordPart_of_isDigitPart hdigit] at hword; cases hword

theorem Ends.operatorEnds {tail : List Char} (h : Ends tail) : OperatorEnds tail := by
  have hclass : ∀ c ∈ '.' :: endings, c ∉ ['=', '>', '/', '*'] := by decide
  exact fun c hc => hclass c (h.head_mem c hc)

/-! ### Which lexeme a character starts -/

theorem beq_eq_false_of_class {p : Char → Bool} {c d : Char} (hc : p c = true) (hd : p d = false) :
    (c == d) = false :=
  beq_eq_false_iff_ne.mpr fun h => by rw [h, hd] at hc; cases hc

theorem isWordStart_eq_false_of_isDigit {c : Char} (h : c.isDigit = true) :
    Text.isWordStart c = false := by
  have hrange : 48 ≤ c.toNat ∧ c.toNat ≤ 57 := by
    simp only [Char.isDigit, Bool.and_eq_true, decide_eq_true_eq] at h
    exact ⟨UInt32.le_iff_toNat_le.mp h.1, UInt32.le_iff_toNat_le.mp h.2⟩
  have hbelow {first : UInt32} (hfirst : 57 < first.toNat) : ¬ first ≤ c.val := fun hle =>
    absurd (Nat.le_trans (UInt32.le_iff_toNat_le.mp hle) hrange.2) (Nat.not_le.mpr hfirst)
  have hupper : c.isUpper = false := decide_eq_false fun h => hbelow (by decide) h.1
  have hlower : c.isLower = false :=
    Bool.and_eq_false_imp.mpr fun h => absurd (of_decide_eq_true h) (hbelow (by decide))
  have hletter : c.isAlpha = false := Bool.or_eq_false_iff.mpr ⟨hupper, hlower⟩
  have hlow : (c == '_') = false := beq_eq_false_of_class (p := Char.isDigit) h rfl
  unfold Text.isWordStart Text.isAlphabetic
  rw [if_pos (by omega), hletter, hlow]
  rfl

theorem lexeme_word {c : Char} (hc : Text.isWordStart c = true) (s : Scan) (rest : List Char) :
    s.lexeme c rest = .ok s.word := by
  have hdigit : c.isDigit = false := by
    cases h : c.isDigit with
    | false => rfl
    | true => rw [isWordStart_eq_false_of_isDigit h] at hc; cases hc
  have hne : ∀ d, Text.isWordStart d = false → (c == d) = false := fun d =>
    beq_eq_false_of_class hc
  unfold lexeme
  rw [hne '\n' rfl, hne '\r' rfl, hne ' ' rfl, hne '\t' rfl, hne '\x0c' rfl, hne '#' rfl, hne '\\' rfl,
    hne '.' rfl, hdigit, hc]
  rfl

theorem lexeme_number {c : Char} (hc : c.isDigit = true) (s : Scan) (rest : List Char) :
    s.lexeme c rest = s.number := by
  have hne : ∀ d, d.isDigit = false → (c == d) = false := fun d => beq_eq_false_of_class hc
  unfold lexeme
  rw [hne '\n' rfl, hne '\r' rfl, hne ' ' rfl, hne '\t' rfl, hne '\x0c' rfl, hne '#' rfl, hne '\\' rfl,
    hc]
  rfl

/-! ### Words -/

/-- A keyword or an identifier. -/
theorem lexes_word {c : Char} {cs : List Char} {kind : TokenKind} (hc : Text.isWordStart c = true)
    (hcs : ∀ d ∈ cs, Text.isWordPart d = true)
    (hkind : kind = match Symbol.keyword? (String.ofList (c :: cs)) with
      | some keyword => TokenKind.symbol keyword
      | none => TokenKind.name (String.ofList (c :: cs)))
    (hdepth : ∀ depth, kindDepth depth kind = depth) : Lexes Ends (c :: cs) [kind] := by
  refine .of_lexeme fun s tail hrest htail => ⟨_, lexeme_word hc s _, ?_⟩
  have hall : ∀ d ∈ c :: cs, Text.isWordPart d = true :=
    List.forall_mem_cons.mpr ⟨isWordPart_of_isWordStart hc, hcs⟩
  have hstop : tail.takeWhile Text.isWordPart = [] ∧ tail.dropWhile Text.isWordPart = tail := by
    cases tail with
    | nil => exact ⟨rfl, rfl⟩
    | cons d tail =>
      have hd := htail.head_not_isWordPart d rfl
      simp [hd]
  have hword : s.word = (s.advance (c :: cs).length tail).emit kind s.column := by
    unfold Scan.word
    rewrite [hrest, List.takeWhile_append_of_pos hall, List.dropWhile_append_of_pos hall, hstop.1,
      hstop.2, List.append_nil, hkind]
    rfl
  rw [hword]
  exact passes_emit hdepth

theorem lexes_identifier {id : String} (h : IsIdentifier id) : Lexes Ends id.toList [.name id] := by
  obtain ⟨⟨c, cs, hid, hc, hcs⟩, hkeyword⟩ := h
  have hback : String.ofList (c :: cs) = id := by rw [← hid, String.ofList_toList]
  rw [hid]
  exact lexes_word hc hcs (by rw [hback, hkeyword]) fun _ => rfl

theorem keyword_form {keyword : Symbol} (h : keyword ∈ Symbol.keywords) :
    Symbol.keyword? keyword.spelling = some keyword ∧
      ∃ c cs, keyword.spelling.toList = c :: cs ∧ Text.isWordStart c = true ∧
        ∀ d ∈ cs, Text.isWordPart d = true := by
  have hspelled : ∀ keyword ∈ Symbol.keywords,
      keyword.spelling.toList.head?.any Text.isWordStart = true ∧
        keyword.spelling.toList.all Text.isWordPart = true ∧
        Symbol.keyword? keyword.spelling = some keyword := by
    decide
  obtain ⟨hstart, hpart, hfind⟩ := hspelled keyword h
  refine ⟨hfind, ?_⟩
  cases htext : keyword.spelling.toList with
  | nil => rw [htext] at hstart; cases hstart
  | cons c cs =>
    rw [htext] at hstart hpart
    exact ⟨c, cs, rfl, by simpa using hstart, fun d hd =>
      List.all_eq_true.mp hpart d (List.mem_cons_of_mem c hd)⟩

theorem depthAfter_keyword {keyword : Symbol} (h : keyword ∈ Symbol.keywords) (depth : Nat) :
    depthAfter depth keyword = depth := by
  unfold depthAfter
  split
  iterate 6 exact absurd h (by decide)
  rfl

theorem lexes_keyword (keyword : Symbol) (h : keyword ∈ Symbol.keywords) :
    Lexes Ends keyword.spelling.toList [.symbol keyword] := by
  obtain ⟨hfind, c, cs, htext, hc, hcs⟩ := keyword_form h
  have hback : String.ofList (c :: cs) = keyword.spelling := by rw [← htext, String.ofList_toList]
  rw [htext]
  exact lexes_word hc hcs (by rw [hback, hfind]) (depthAfter_keyword h)

/-! ### Operators -/

/-- No character after the first one of an operator may follow one. -/
theorem isPrefixOf_append_of_operatorEnds {tail : List Char} (htail : OperatorEnds tail) :
    ∀ {spelling text : List Char}, text ≠ [] → (∀ c ∈ spelling.tail, c ∈ ['=', '>', '/', '*']) →
      spelling.isPrefixOf (text ++ tail) = spelling.isPrefixOf text
  | [], _, _, _ => rfl
  | c :: spelling, d :: text, _, hspelling => by
    rw [List.cons_append, List.isPrefixOf_cons_cons, List.isPrefixOf_cons_cons]
    congr 1
    cases text with
    | nil =>
      cases spelling with
      | nil => rfl
      | cons e spelling =>
        have he := hspelling e List.mem_cons_self
        cases tail with
        | nil => rfl
        | cons f tail =>
          have hf := htail f rfl
          have hne : (e == f) = false := beq_eq_false_iff_ne.mpr fun h => hf (h ▸ he)
          simp [List.isPrefixOf, hne]
    | cons e text =>
      exact isPrefixOf_append_of_operatorEnds htail (List.cons_ne_nil e text) fun c hc =>
        hspelling c (List.mem_of_mem_tail hc)

/-- The text of an operator starts with it and no longer one. -/
theorem find_operator {op : Symbol} (hop : op ∈ Symbol.operators) (tail : List Char)
    (htail : OperatorEnds tail) :
    Symbol.spelledOperators.find? (fun o => o.1.isPrefixOf (op.spelling.toList ++ tail)) =
      some (op.spelling.toList, op) := by
  have hshort : ∀ o ∈ Symbol.spelledOperators, ∀ c ∈ o.1.tail, c ∈ ['=', '>', '/', '*'] := by
    decide
  have halone : ∀ op ∈ Symbol.operators, op.spelling.toList ≠ [] ∧
      Symbol.spelledOperators.find? (fun o => o.1.isPrefixOf op.spelling.toList) =
        some (op.spelling.toList, op) := by
    decide
  obtain ⟨hne, hfind⟩ := halone op hop
  rw [← hfind]
  refine List.find?_congr fun o ho => ?_
  exact isPrefixOf_append_of_operatorEnds htail hne (hshort o ho)

/-- Operators that no other one starts like. -/
def isSingle (c : Char) : Bool :=
  Symbol.spelledOperators.all fun o => o.1.head? != some c || o.1 == [c]

theorem find_single {op : Symbol} (hop : op ∈ Symbol.operators) {c : Char}
    (hspelling : op.spelling.toList = [c]) (hsingle : isSingle c = true) (tail : List Char) :
    Symbol.spelledOperators.find? (fun o => o.1.isPrefixOf (c :: tail)) = some ([c], op) := by
  rw [← hspelling, ← find_operator hop [] nofun, List.append_nil]
  refine List.find?_congr fun o ho => ?_
  have halone := List.all_eq_true.mp hsingle o ho
  rw [hspelling]
  cases htext : o.1 with
  | nil => rfl
  | cons d ds =>
    rw [htext] at halone
    by_cases hd : d = c
    · have hds : ds = [] := by simpa [hd] using halone
      rw [hds]
      rfl
    · have hne : (d == c) = false := beq_eq_false_iff_ne.mpr hd
      simp [List.isPrefixOf, hne]

/-- The characters that an operator without a point starts with. -/
def operatorStarts : List Char :=
  ['/', '*', '+', '-', '%', '=', '!', '<', '>', '(', ')', '[', ']', ',', ':']

theorem lexeme_operator {c : Char} {rest : List Char} (hc : c ∈ '.' :: operatorStarts)
    (hdot : c = '.' → rest.head?.any Char.isDigit = false) (s : Scan) :
    s.lexeme c rest = s.operator c := by
  have hclass : ∀ c ∈ '.' :: operatorStarts,
      (c == '\n') = false ∧ (c == '\r' || c == ' ' || c == '\t' || c == '\x0c') = false ∧
        (c == '#') = false ∧ (c == '\\') = false ∧ c.isDigit = false ∧
        Text.isWordStart c = false ∧ (c == '"' || c == '\'') = false := by
    decide
  obtain ⟨hnewline, hblank, hcomment, hbackslash, hdigit, hword, hquote⟩ := hclass c hc
  have hpoint : (c == '.' && rest.head?.any Char.isDigit) = false := by
    by_cases h : c = '.'
    · rw [hdot h, Bool.and_false]
    · rw [beq_eq_false_iff_ne.mpr h, Bool.false_and]
  unfold lexeme
  rw [hnewline, hblank, hcomment, hbackslash, hdigit, hpoint, hword, hquote]
  rfl

/-- The operator that the scanner finds at the start of a piece. -/
theorem lexes_of_find {condition : List Char → Prop} {op : Symbol} {c : Char} {cs : List Char}
    (hc : c ∈ '.' :: operatorStarts)
    (hdot : ∀ tail, condition tail → c = '.' → (cs ++ tail).head?.any Char.isDigit = false)
    (hfind : ∀ tail, condition tail → Symbol.spelledOperators.find?
      (fun o => o.1.isPrefixOf (c :: cs ++ tail)) = some (c :: cs, op)) :
    Lexes condition (c :: cs) [.symbol op] := by
  refine .of_lexeme fun s tail hrest htail => ?_
  rw [lexeme_operator hc (hdot tail htail)]
  unfold Scan.operator
  rw [hrest, hfind tail htail]
  refine ⟨_, rfl, ?_, rfl, rfl, rfl, kinds_emit _ _ _⟩
  exact List.drop_left

/-- The operators that stand between operands, before one, or in an assignment. -/
def openOperators : List Symbol :=
  [.slashSlashEq, .starStar, .slashSlash, .plusEq, .minusEq, .starEq, .slashEq, .percentEq, .eqEq,
    .bangEq, .ltEq, .gtEq, .plus, .minus, .star, .slash, .percent, .lt, .gt, .eq]

theorem lexes_operator (op : Symbol) (hop : op ∈ openOperators) :
    Lexes OperatorEnds op.spelling.toList [.symbol op] := by
  have hspelled : ∀ op ∈ openOperators, op ∈ Symbol.operators ∧
      op.spelling.toList.head?.any operatorStarts.contains = true := by
    decide
  obtain ⟨hmem, hstart⟩ := hspelled op hop
  cases htext : op.spelling.toList with
  | nil => rw [htext] at hstart; cases hstart
  | cons c cs =>
    rw [htext] at hstart
    have hc : c ∈ operatorStarts := by simpa using hstart
    refine lexes_of_find (List.mem_cons_of_mem '.' hc) (fun _ _ hdot => ?_) fun tail htail => ?_
    · exact absurd (hdot ▸ hc) (by decide)
    · rw [← htext]
      exact find_operator hmem _ htail

/-- A bracket or separator, whatever follows it. -/
theorem lexes_single {condition : List Char → Prop} {op : Symbol} {c : Char}
    (hspelling : op.spelling.toList = [c]) (hop : op ∈ Symbol.operators)
    (hc : c ∈ operatorStarts) (hsingle : isSingle c = true) : Lexes condition [c] [.symbol op] := by
  refine lexes_of_find (List.mem_cons_of_mem '.' hc) (fun _ _ hdot => ?_) fun tail _ =>
    find_single hop hspelling hsingle tail
  exact absurd (hdot ▸ hc) (by decide)

/-- A point, if a word follows it. -/
theorem lexes_dot :
    Lexes (fun tail => tail.head?.any Text.isWordStart = true) ['.'] [.symbol .dot] := by
  refine lexes_of_find List.mem_cons_self (fun tail htail _ => ?_) fun tail _ =>
    find_single (by decide) rfl (by decide) tail
  cases tail with
  | nil => rfl
  | cons d tail =>
    cases hdigit : d.isDigit with
    | false => simpa using hdigit
    | true =>
      rw [List.head?_cons, Option.any_some, isWordStart_eq_false_of_isDigit hdigit] at htail
      cases htail

/-! ### Numbers -/

theorem isDigitPart_of_isDigit {c : Char} (h : c.isDigit = true) : isDigitPart c = true := by
  unfold isDigitPart
  rw [h, Bool.true_or]

/-- All digits before something else are added to a number. -/
theorem addDigits_append {text ds tail : List Char} {isFloat : Bool} (hds : Number.AreDigits ds)
    (htail : ∀ c ∈ tail.head?, isDigitPart c = false) :
    NumberSpan.addDigits ⟨text, isFloat, ds ++ tail⟩ = ⟨text ++ ds, isFloat, tail⟩ := by
  have hall : ∀ d ∈ ds, isDigitPart d = true := fun d hd => isDigitPart_of_isDigit (hds.2 d hd)
  have hstop : tail.takeWhile isDigitPart = [] ∧ tail.dropWhile isDigitPart = tail := by
    cases tail with
    | nil => exact ⟨rfl, rfl⟩
    | cons c tail => simp [htail c rfl]
  unfold NumberSpan.addDigits
  simp only [List.takeWhile_append_of_pos hall, List.dropWhile_append_of_pos hall, hstop.1, hstop.2,
    List.append_nil]

/-- A point before a word does not belong to a number, nor does anything else that may follow. -/
theorem addFraction_of_ends {n : NumberSpan} (h : Ends n.rest) : n.addFraction = n := by
  unfold NumberSpan.addFraction
  rcases h with h | ⟨d, rest, hrest, hd⟩
  · split
    · rename_i after hrest
      exact absurd (h '.' (by rw [hrest]; rfl)) (by decide)
    · rfl
  · have hdigit : d.isDigit = false := by
      cases hdigit : d.isDigit with
      | false => rfl
      | true => rw [isWordStart_eq_false_of_isDigit hdigit] at hd; cases hd
    rw [hrest]
    simp [hdigit, hd]

theorem addFraction_append {text places tail : List Char} (hplaces : Number.AreDigits places)
    (htail : ∀ c ∈ tail.head?, isDigitPart c = false) :
    NumberSpan.addFraction ⟨text, false, '.' :: (places ++ tail)⟩ =
      ⟨text ++ '.' :: places, true, tail⟩ := by
  obtain ⟨c, cs, rfl⟩ := List.exists_cons_of_ne_nil hplaces.1
  have hc : c.isDigit = true := hplaces.2 c List.mem_cons_self
  have hadd : NumberSpan.addDigits ⟨text ++ ['.'], true, c :: cs ++ tail⟩ =
      ⟨text ++ ['.'] ++ c :: cs, true, tail⟩ := addDigits_append hplaces htail
  show (if c.isDigit then NumberSpan.addDigits ⟨text ++ ['.'], true, c :: cs ++ tail⟩ else _) = _
  rw [if_pos hc, hadd, List.append_assoc]
  rfl

theorem addExponent_of_ends {n : NumberSpan} (h : Ends n.rest) : n.addExponent = n := by
  unfold NumberSpan.addExponent
  split
  · rename_i e after hrest
    have he := h.head_not_isWordPart e (by rw [hrest]; rfl)
    have hletter : (e == 'e' || e == 'E') = false := by
      rw [Bool.or_eq_false_iff, beq_eq_false_iff_ne, beq_eq_false_iff_ne]
      constructor <;> (rintro rfl; exact absurd he (by decide))
    rw [hletter]
    rfl
  · rfl

theorem addExponent_append {text sign power tail : List Char} {isFloat : Bool}
    (hsign : sign = [] ∨ sign = ['-']) (hpower : Number.AreDigits power)
    (htail : ∀ c ∈ tail.head?, isDigitPart c = false) :
    NumberSpan.addExponent ⟨text, isFloat, 'e' :: (sign ++ power) ++ tail⟩ =
      ⟨text ++ 'e' :: (sign ++ power), true, tail⟩ := by
  obtain ⟨c, cs, rfl⟩ := List.exists_cons_of_ne_nil hpower.1
  have hc : c.isDigit = true := hpower.2 c List.mem_cons_self
  have hnosign : (c == '+' || c == '-') = false := by
    rw [beq_eq_false_of_class hc rfl, beq_eq_false_of_class hc rfl]
    rfl
  have hadd : ∀ before : List Char, NumberSpan.addDigits ⟨before, true, c :: cs ++ tail⟩ =
      ⟨before ++ c :: cs, true, tail⟩ := fun _ => addDigits_append hpower htail
  unfold NumberSpan.addExponent
  rcases hsign with rfl | rfl
  · simp [hnosign, hc]
    simpa using hadd (text ++ ['e'])
  · simp [hc]
    simpa using hadd (text ++ ['e', '-'])

/-- The text of a whole number is one numeral. -/
theorem spanNumber_digits {ds tail : List Char} (hds : Number.AreDigits ds) (htail : Ends tail) :
    spanNumber (ds ++ tail) = ⟨ds, false, tail⟩ := by
  unfold spanNumber
  rw [addDigits_append hds htail.head_not_isDigitPart, addFraction_of_ends htail,
    addExponent_of_ends htail]
  rfl

theorem spanNumber_fraction {cs tail : List Char} (hcs : Number.IsFraction cs)
    (htail : Ends tail) : spanNumber (cs ++ tail) = ⟨cs, true, tail⟩ := by
  obtain ⟨whole, places, rfl, hwhole, hplaces⟩ := hcs
  unfold spanNumber
  rw [List.append_assoc, List.cons_append,
    addDigits_append hwhole fun c hc => by cases hc; rfl, List.nil_append,
    addFraction_append hplaces htail.head_not_isDigitPart, addExponent_of_ends htail]

theorem spanNumber_scientific {cs tail : List Char} (hcs : Number.IsScientific cs)
    (htail : Ends tail) : spanNumber (cs ++ tail) = ⟨cs, true, tail⟩ := by
  obtain ⟨mantissa, sign, power, rfl, hmantissa, hsign, hpower⟩ := hcs
  have hexponent : ∀ c ∈ ('e' :: (sign ++ power) ++ tail).head?, isDigitPart c = false :=
    fun c hc => by cases hc; rfl
  have hspan : ∃ isFloat, (NumberSpan.addDigits
      ⟨[], false, mantissa ++ ('e' :: (sign ++ power) ++ tail)⟩).addFraction =
        ⟨mantissa, isFloat, 'e' :: (sign ++ power) ++ tail⟩ := by
    rcases hmantissa with hdigits | ⟨whole, places, rfl, hwhole, hplaces⟩
    · exact ⟨false, by rw [addDigits_append hdigits hexponent]; rfl⟩
    · refine ⟨true, ?_⟩
      rw [List.append_assoc, List.cons_append,
        addDigits_append hwhole fun c hc => by cases hc; rfl, List.nil_append,
        addFraction_append hplaces hexponent]
  obtain ⟨isFloat, hspan⟩ := hspan
  unfold spanNumber
  rw [List.append_assoc, hspan, addExponent_append hsign hpower htail.head_not_isDigitPart]

/-- The scanner's view of a number, given its characters and its kind. -/
theorem lexes_number {c : Char} {cs : List Char} {isFloat : Bool} {kind : TokenKind}
    (hc : c.isDigit = true)
    (hspan : ∀ tail, Ends tail → spanNumber (c :: cs ++ tail) = ⟨c :: cs, isFloat, tail⟩)
    (hkind : ∀ tail, numberKind ⟨c :: cs, isFloat, tail⟩ = .ok kind)
    (hdepth : ∀ depth, kindDepth depth kind = depth) : Lexes Ends (c :: cs) [kind] := by
  refine .of_lexeme fun s tail hrest htail => ?_
  have hhead : tail.head?.any Text.isWordPart = false := by
    cases tail with
    | nil => rfl
    | cons d tail => simpa using htail.head_not_isWordPart d rfl
  rw [lexeme_number hc]
  unfold Scan.number
  rw [hrest, hspan tail htail]
  dsimp only
  rw [hhead, hkind tail]
  exact ⟨_, rfl, passes_emit hdepth⟩

theorem not_underscore_of_areDigits {ds : List Char} (h : Number.AreDigits ds) :
    ∀ d ∈ ds, (d != '_') = true := by
  intro d hd
  rw [bne, beq_eq_false_of_class (h.2 d hd) (show Char.isDigit '_' = false from rfl)]
  rfl

theorem toString_toInt {value : Int64} (h : 0 ≤ value.toInt) :
    ∃ n : Nat, value.toInt = n ∧ (toString value.toInt).toList = (Number.digits n).toList := by
  obtain ⟨n, hn⟩ := Int.eq_ofNat_of_zero_le h
  refine ⟨n, hn, ?_⟩
  rw [hn, Number.digits, String.toList_ofList]
  exact Nat.toList_repr

/-- A whole number that is not negative. -/
theorem lexes_int {value : Int64} (h : 0 ≤ value.toInt) :
    Lexes Ends (toString value.toInt).toList [.int value] := by
  obtain ⟨n, hn, htext⟩ := toString_toInt h
  have hdigits := Number.areDigits_digits n
  rw [htext]
  obtain ⟨c, cs, hcs⟩ := List.exists_cons_of_ne_nil hdigits.1
  rw [hcs] at hdigits ⊢
  refine lexes_number (hdigits.2 c List.mem_cons_self) (fun tail => spanNumber_digits hdigits) ?_
    fun _ => rfl
  intro tail
  have hplain : (c :: cs).filter (· != '_') = c :: cs :=
    List.filter_eq_self.mpr (not_underscore_of_areDigits hdigits)
  unfold numberKind
  dsimp only
  rw [hplain, ← hcs, Number.digitsValue_digits, if_neg Bool.false_ne_true]
  have hword : Checked.word? (n : Int) = some value := by rw [← Checked.word?_toInt value, hn]
  rw [hword]

theorem not_underscore_of_isFraction {cs : List Char} (h : Number.IsFraction cs) :
    ∀ d ∈ cs, (d != '_') = true := by
  obtain ⟨whole, places, rfl, hwhole, hplaces⟩ := h
  intro d hd
  rcases List.mem_append.mp hd with hd | hd
  · exact not_underscore_of_areDigits hwhole d hd
  · rcases List.mem_cons.mp hd with rfl | hd
    · rfl
    · exact not_underscore_of_areDigits hplaces d hd

theorem not_underscore_of_isScientific {cs : List Char} (h : Number.IsScientific cs) :
    ∀ d ∈ cs, (d != '_') = true := by
  obtain ⟨mantissa, sign, power, rfl, hmantissa, hsign, hpower⟩ := h
  intro d hd
  rcases List.mem_append.mp hd with hd | hd
  · exact hmantissa.elim (fun h => not_underscore_of_areDigits h d hd) fun h =>
      not_underscore_of_isFraction h d hd
  · rcases List.mem_cons.mp hd with rfl | hd
    · rfl
    · rcases List.mem_append.mp hd with hd | hd
      · rcases hsign with rfl | rfl
        · cases hd
        · cases List.mem_singleton.mp hd
          rfl
      · exact not_underscore_of_areDigits hpower d hd

theorem isDigit_head_of_areDigits {ds : List Char} (h : Number.AreDigits ds) :
    ds.head?.any Char.isDigit = true := by
  obtain ⟨c, cs, rfl⟩ := List.exists_cons_of_ne_nil h.1
  exact h.2 c List.mem_cons_self

theorem isDigit_head_append {cs more : List Char} (h : cs.head?.any Char.isDigit = true) :
    (cs ++ more).head?.any Char.isDigit = true := by
  cases cs with
  | nil => cases h
  | cons c cs => exact h

/-- Both forms of a double start with a digit. -/
theorem isDigit_head_of_form {cs : List Char}
    (h : Number.IsFraction cs ∨ Number.IsScientific cs) : cs.head?.any Char.isDigit = true := by
  rcases h with ⟨whole, places, rfl, hwhole, -⟩ | ⟨mantissa, _, _, rfl, hmantissa, -⟩
  · exact isDigit_head_append (isDigit_head_of_areDigits hwhole)
  · rcases hmantissa with hdigits | ⟨whole, places, rfl, hwhole, -⟩
    · exact isDigit_head_append (isDigit_head_of_areDigits hdigits)
    · exact isDigit_head_append (isDigit_head_append (isDigit_head_of_areDigits hwhole))

/-- A finite double without a sign is read back. -/
theorem lexes_float {value : Double} (h : IsPlainLiteral (.float value)) :
    Lexes Ends (Number.sourceLayout.write value).toList [.float value] := by
  obtain ⟨hfinite, hsign⟩ := h
  have hback := Number.readUnsigned_write hfinite hsign
  have hform := Number.write_source_form hfinite hsign
  generalize (Number.sourceLayout.write value).toList = text at hback hform ⊢
  have hspan : ∀ tail, Ends tail → spanNumber (text ++ tail) = ⟨text, true, tail⟩ := fun tail htail =>
    hform.elim (fun h => spanNumber_fraction h htail) fun h => spanNumber_scientific h htail
  have hplain : text.filter (· != '_') = text := List.filter_eq_self.mpr
    (hform.elim not_underscore_of_isFraction not_underscore_of_isScientific)
  have hhead := isDigit_head_of_form hform
  cases text with
  | nil => cases hhead
  | cons c cs =>
    refine lexes_number hhead hspan (fun tail => ?_) fun _ => rfl
    unfold numberKind
    dsimp only
    rw [hplain, if_pos rfl, hback]
    dsimp only
    rw [if_pos hfinite]

/-! ### Strings -/

theorem stringAfter_plain (s : Scan) {c : Char} (found : List Char) (count : Nat)
    (rest : List Char) (hnewline : c ≠ '\n') (hquote : c ≠ '"') (hbackslash : c ≠ '\\') :
    s.stringAfter '"' found count (c :: rest) =
      s.stringAfter '"' (c :: found) (count + 1) rest := by
  conv => lhs; unfold Scan.stringAfter
  simp only [beq_iff_eq, hnewline, hquote, hbackslash, if_false]

theorem stringAfter_backslash (s : Scan) {c e : Char} (found : List Char) (count : Nat)
    (rest : List Char) (h : unescape? e = some c) :
    s.stringAfter '"' found count ('\\' :: e :: rest) =
      s.stringAfter '"' (c :: found) (count + 2) rest := by
  conv => lhs; unfold Scan.stringAfter
  simp [h]

/-- A character of a string is read back from what it is written with. -/
theorem stringAfter_escape (s : Scan) (found : List Char) (count : Nat) (c : Char)
    (rest : List Char) :
    s.stringAfter '"' found count ((escape c).toList ++ rest) =
      s.stringAfter '"' (c :: found) (count + (escape c).toList.length) rest := by
  unfold escape
  split
  · rename_i h
    rw [beq_iff_eq.mp h]
    exact stringAfter_backslash s found count rest rfl
  split
  · rename_i h
    rw [beq_iff_eq.mp h]
    exact stringAfter_backslash s found count rest rfl
  split
  · rename_i h
    rw [beq_iff_eq.mp h]
    exact stringAfter_backslash s found count rest rfl
  split
  · rename_i h
    rw [beq_iff_eq.mp h]
    exact stringAfter_backslash s found count rest rfl
  split
  · rename_i h
    rw [beq_iff_eq.mp h]
    exact stringAfter_backslash s found count rest rfl
  split
  · rename_i h
    rw [beq_iff_eq.mp h]
    exact stringAfter_backslash s found count rest rfl
  · rename_i hquote hbackslash hnewline _ _ _
    simpa using stringAfter_plain s found count rest (by simpa using hnewline)
      (by simpa using hquote) (by simpa using hbackslash)

theorem stringAfter_append (s : Scan) (tail : List Char) : ∀ (cs found : List Char) (count : Nat),
    s.stringAfter '"' found count (cs.flatMap (fun c => (escape c).toList) ++ '"' :: tail) =
      .ok (String.ofList (found.reverse ++ cs),
        s.advance (count + (cs.flatMap fun c => (escape c).toList).length + 1) tail)
  | [], found, count => by
    rw [List.flatMap_nil, List.nil_append]
    unfold Scan.stringAfter
    simp
  | c :: cs, found, count => by
    rw [List.flatMap_cons, List.append_assoc, stringAfter_escape, stringAfter_append s tail cs]
    simp [Nat.add_assoc]

theorem escape_head (c : Char) : ∃ d ds, (escape c).toList = d :: ds ∧ d ≠ '"' := by
  unfold escape
  split
  · exact ⟨'\\', ['"'], rfl, by decide⟩
  split
  · exact ⟨'\\', ['\\'], rfl, by decide⟩
  split
  · exact ⟨'\\', ['n'], rfl, by decide⟩
  split
  · exact ⟨'\\', ['t'], rfl, by decide⟩
  split
  · exact ⟨'\\', ['r'], rfl, by decide⟩
  split
  · exact ⟨'\\', ['0'], rfl, by decide⟩
  · rename_i hquote _ _ _ _ _
    exact ⟨c, [], by simp, by simpa using hquote⟩

/-- A string. -/
theorem lexes_string (value : String) :
    Lexes Ends (renderLiteral (.str value)).toList [.str value] := by
  have htext : (renderLiteral (.str value)).toList =
      '"' :: (value.toList.flatMap (fun c => (escape c).toList) ++ ['"']) := by
    simp [renderLiteral, String.toList_join, List.flatMap_map]
  rw [htext]
  refine .of_lexeme fun s tail hrest htail => ?_
  have hopen : (['"', '"'].isPrefixOf
      (value.toList.flatMap (fun c => (escape c).toList) ++ ['"'] ++ tail)) = false := by
    cases value.toList with
    | nil =>
      cases tail with
      | nil => rfl
      | cons d tail =>
        have hd : '"' ≠ d := fun h => absurd (h ▸ htail.head_mem d rfl) (by decide)
        simp [List.isPrefixOf, hd]
    | cons c cs =>
      obtain ⟨d, ds, hescape, hd⟩ := escape_head c
      rw [List.flatMap_cons, hescape]
      simp [List.isPrefixOf, hd.symm]
  show ∃ next, s.string '"' _ = .ok next ∧ _
  unfold Scan.string
  rw [hopen, List.append_assoc, List.singleton_append, stringAfter_append]
  refine ⟨_, rfl, ?_⟩
  rw [List.reverse_nil, List.nil_append, String.ofList_toList]
  exact passes_emit fun _ => rfl

end ProgramBreeding.Source

import ProgramBreeding.Proofs.Source.Scanning

/-!
# Printed expressions as tokens

The scanner reads the text of an expression that can be written down as the tokens of
the expression.

## Main definitions

* `Balanced` — tokens inside a line that close every bracket they open.
* `Readable` — text that is read as balanced tokens.
* `Legible` — readable text that can also follow a sign or the blanks of a line.
-/

namespace ProgramBreeding.Source

open Scan

variable {α : Type}

/-- Tokens that end a line or change its indentation. -/
def isLayout : TokenKind → Bool
  | .newline | .indent | .dedent => true
  | _ => false

/-- Tokens inside a line that close every bracket they open. -/
structure Balanced (kinds : List TokenKind) : Prop where
  depth : ∀ depth, kinds.foldl kindDepth depth = depth
  inline : ∀ kind ∈ kinds, isLayout kind = false

theorem Balanced.nil : Balanced [] := ⟨fun _ => rfl, nofun⟩

theorem Balanced.single {kind : TokenKind} (hdepth : ∀ depth, kindDepth depth kind = depth)
    (hkind : isLayout kind = false) : Balanced [kind] :=
  ⟨hdepth, List.forall_mem_cons.mpr ⟨hkind, nofun⟩⟩

theorem balanced_keyword {keyword : Symbol} (h : keyword ∈ Symbol.keywords) :
    Balanced [.symbol keyword] :=
  .single (depthAfter_keyword h) rfl

theorem Balanced.append {kinds more : List TokenKind} (h : Balanced kinds) (hmore : Balanced more) :
    Balanced (kinds ++ more) where
  depth := fun depth => by rw [List.foldl_append, h.depth, hmore.depth]
  inline := fun kind hkind => (List.mem_append.mp hkind).elim (h.inline kind) (hmore.inline kind)

theorem Balanced.cons {kind : TokenKind} {more : List TokenKind} (h : Balanced [kind])
    (hmore : Balanced more) : Balanced (kind :: more) :=
  h.append hmore

/-- Brackets around balanced tokens. -/
theorem Balanced.enclosed {opening closing : Symbol} (hopen : ∀ depth, depthAfter depth opening = depth + 1)
    (hclose : ∀ depth, depthAfter depth closing = depth - 1) {kinds : List TokenKind}
    (h : Balanced kinds) : Balanced (.symbol opening :: (kinds ++ [.symbol closing])) where
  depth := fun depth => by
    rw [List.foldl_cons, List.foldl_append, h.depth]
    show depthAfter (depthAfter depth opening) closing = depth
    rw [hopen, hclose, Nat.add_sub_cancel]
  inline := by
    simp only [List.forall_mem_cons, List.forall_mem_append]
    exact ⟨rfl, h.inline, rfl, nofun⟩

/-- Text that is read as balanced tokens, if a name could end after it. -/
structure Readable (text : String) (kinds : List TokenKind) : Prop where
  lexes : Lexes Ends text.toList kinds
  balanced : Balanced kinds

/-- Text that does not go on an operator and does not look like blanks or a comment. -/
def Begins (text : List Char) : Prop :=
  ∃ c cs, text = c :: cs ∧
    c ∉ ['=', '>', '/', '*', ' ', '\t', '\x0c', '\n', '\r', '#']

theorem Begins.append {text : List Char} (h : Begins text) (more : List Char) :
    Begins (text ++ more) := by
  obtain ⟨c, cs, rfl, hc⟩ := h
  exact ⟨c, cs ++ more, rfl, hc⟩

theorem Begins.operatorEnds {text : List Char} (h : Begins text) (tail : List Char) :
    OperatorEnds (text ++ tail) := by
  obtain ⟨c, cs, rfl, hc⟩ := h
  intro d hd
  cases hd
  exact fun hmem => hc (List.mem_append_left _ hmem)

/-- Readable text that can follow a sign or the blanks of a line. -/
structure Legible (text : String) (kinds : List TokenKind) : Prop extends Readable text kinds where
  begins : Begins text.toList
  nonempty : kinds ≠ []

/-! ### Pieces between operands -/

/-- A keyword or an operator with blanks around it. -/
theorem lexes_spaced {condition : List Char → Prop} (symbol : Symbol)
    (h : symbol ∈ openOperators ∨ symbol ∈ Symbol.keywords) :
    Lexes condition ([' '] ++ symbol.spelling.toList ++ [' ']) [.symbol symbol] := by
  have hsymbol : Lexes (fun tail => ∃ rest, tail = ' ' :: rest) symbol.spelling.toList
      [.symbol symbol] := by
    rcases h with h | h
    · refine (lexes_operator _ h).mono ?_
      rintro _ ⟨rest, rfl⟩
      exact (ends_cons (by decide) rest).operatorEnds
    · refine (lexes_keyword _ h).mono ?_
      rintro _ ⟨rest, rfl⟩
      exact ends_cons (by decide) rest
  have hfirst : Lexes (fun _ => True) [' '] [] := lexes_space
  exact (hfirst.append hsymbol fun _ _ => trivial).append lexes_space fun tail _ => ⟨tail, rfl⟩

theorem lexes_leftParen (condition : List Char → Prop) :
    Lexes condition ['('] [.symbol .leftParen] :=
  lexes_single rfl (by decide) (by decide) (by decide)

theorem lexes_rightParen (condition : List Char → Prop) :
    Lexes condition [')'] [.symbol .rightParen] :=
  lexes_single rfl (by decide) (by decide) (by decide)

theorem lexes_leftBracket (condition : List Char → Prop) :
    Lexes condition ['['] [.symbol .leftBracket] :=
  lexes_single rfl (by decide) (by decide) (by decide)

theorem lexes_rightBracket (condition : List Char → Prop) :
    Lexes condition [']'] [.symbol .rightBracket] :=
  lexes_single rfl (by decide) (by decide) (by decide)

theorem lexes_comma (condition : List Char → Prop) : Lexes condition [','] [.symbol .comma] :=
  lexes_single rfl (by decide) (by decide) (by decide)

theorem lexes_colon (condition : List Char → Prop) : Lexes condition [':'] [.symbol .colon] :=
  lexes_single rfl (by decide) (by decide) (by decide)

/-- Readable text between brackets. -/
theorem Readable.enclosed {opening closing : Symbol} {c d : Char} {text : String}
    {kinds : List TokenKind} (h : Readable text kinds)
    (hopen : ∀ condition, Lexes condition [c] [.symbol opening])
    (hclose : ∀ condition, Lexes condition [d] [.symbol closing]) (hd : d ∈ endings) :
    Lexes Ends (c :: (text.toList ++ [d])) (.symbol opening :: (kinds ++ [.symbol closing])) := by
  refine (hopen fun _ => True).append (h.lexes.append (hclose Ends) fun tail _ => ?_) fun _ _ => trivial
  exact ends_cons hd tail

/-- Text in parentheses. -/
theorem Readable.parenthesized {text : String} {kinds : List TokenKind} (h : Readable text kinds) :
    Legible ("(" ++ text ++ ")") (.symbol .leftParen :: (kinds ++ [.symbol .rightParen])) where
  lexes := by
    have hlexes := h.enclosed lexes_leftParen lexes_rightParen (by decide)
    simpa using hlexes
  balanced := h.balanced.enclosed (fun _ => rfl) fun _ => rfl
  begins := ⟨'(', text.toList ++ [')'], by simp, by decide⟩
  nonempty := List.cons_ne_nil _ _

/-- Text in square brackets. -/
theorem Readable.bracketed {text : String} {kinds : List TokenKind} (h : Readable text kinds) :
    Legible ("[" ++ text ++ "]") (.symbol .leftBracket :: (kinds ++ [.symbol .rightBracket])) where
  lexes := by
    have hlexes := h.enclosed lexes_leftBracket lexes_rightBracket (by decide)
    simpa using hlexes
  balanced := h.balanced.enclosed (fun _ => rfl) fun _ => rfl
  begins := ⟨'[', text.toList ++ [']'], by simp, by decide⟩
  nonempty := List.cons_ne_nil _ _

theorem Legible.enclose {e : Expr α} (h : Legible (bareText e) (bareKinds e)) (least : Strength) :
    Legible (Source.enclose least e (bareText e)) (encloseKinds least e (bareKinds e)) := by
  unfold Source.enclose encloseKinds
  split
  · exact h.parenthesized
  · exact h

/-- Something in brackets after a legible piece: a call or a subscript. -/
theorem Legible.followed {text more : String} {kinds moreKinds : List TokenKind}
    (h : Legible text kinds) (hmore : Readable more moreKinds)
    (hends : ∀ tail, Ends tail → Ends (more.toList ++ tail)) :
    Legible (text ++ more) (kinds ++ moreKinds) where
  lexes := by
    rw [String.toList_append]
    exact h.lexes.append hmore.lexes hends
  balanced := h.balanced.append hmore.balanced
  begins := by
    rw [String.toList_append]
    exact h.begins.append _
  nonempty := List.append_ne_nil_of_left_ne_nil h.nonempty _

/-- Two operands with something between them. -/
theorem Legible.infix {left right between : String} {kinds symbols kinds' : List TokenKind}
    (hleft : Legible left kinds) (hright : Readable right kinds')
    (hbetween : Lexes (fun _ => True) ([' '] ++ between.toList ++ [' ']) symbols)
    (hbalanced : Balanced symbols) :
    Legible (left ++ " " ++ between ++ " " ++ right) (kinds ++ (symbols ++ kinds')) where
  lexes := by
    have hafter := hbetween.append hright.lexes fun _ _ => trivial
    have hall := hleft.lexes.append hafter fun tail _ => ends_cons (by decide) _
    simpa using hall
  balanced := hleft.balanced.append (hbalanced.append hright.balanced)
  begins := by
    simp only [String.toList_append, List.append_assoc]
    exact hleft.begins.append _
  nonempty := List.append_ne_nil_of_left_ne_nil hleft.nonempty _

theorem legible_binary (op : BinaryOp) {left right : String} {kinds kinds' : List TokenKind}
    (hleft : Legible left kinds) (hright : Readable right kinds') :
    Legible (left ++ " " ++ op.symbol ++ " " ++ right)
      (kinds ++ .symbol (binarySymbol op) :: kinds') := by
  have hspelling : op.symbol = (binarySymbol op).spelling := by cases op <;> rfl
  have hopen : binarySymbol op ∈ openOperators := by cases op <;> decide
  have hbalanced : Balanced [.symbol (binarySymbol op)] := by cases op <;> exact .single (fun _ => rfl) rfl
  rw [hspelling]
  exact hleft.infix hright (lexes_spaced _ (.inl hopen)) hbalanced

theorem legible_logic (op : LogicOp) {left right : String} {kinds kinds' : List TokenKind}
    (hleft : Legible left kinds) (hright : Readable right kinds') :
    Legible (left ++ " " ++ op.symbol ++ " " ++ right)
      (kinds ++ .symbol (logicSymbol op) :: kinds') := by
  have hspelling : op.symbol = (logicSymbol op).spelling := by cases op <;> rfl
  have hkeyword : logicSymbol op ∈ Symbol.keywords := by cases op <;> decide
  have hbalanced : Balanced [.symbol (logicSymbol op)] := by cases op <;> exact .single (fun _ => rfl) rfl
  rw [hspelling]
  exact hleft.infix hright (lexes_spaced _ (.inr hkeyword)) hbalanced

theorem lexes_notIn {condition : List Char → Prop} :
    Lexes condition ([' '] ++ CompareOp.notMem.symbol.toList ++ [' '])
      ((compareSymbols .notMem).map .symbol) := by
  have hin : Lexes condition (Symbol.kwIn.spelling.toList ++ [' ']) [.symbol .kwIn] :=
    (lexes_keyword _ (by decide)).append lexes_space fun tail _ => ends_cons (by decide) tail
  have hnot : Lexes (fun _ => True) ([' '] ++ Symbol.kwNot.spelling.toList ++ [' ']) [.symbol .kwNot] :=
    lexes_spaced _ (.inr (by decide))
  exact hnot.append hin fun _ _ => trivial

theorem legible_compare (op : CompareOp) {left right : String} {kinds kinds' : List TokenKind}
    (hleft : Legible left kinds) (hright : Readable right kinds') :
    Legible (left ++ " " ++ op.symbol ++ " " ++ right)
      (kinds ++ ((compareSymbols op).map .symbol ++ kinds')) := by
  have hlexes : Lexes (fun _ => True) ([' '] ++ op.symbol.toList ++ [' '])
      ((compareSymbols op).map .symbol) := by
    cases op with
    | lt => exact lexes_spaced .lt (.inl (by decide))
    | gt => exact lexes_spaced .gt (.inl (by decide))
    | le => exact lexes_spaced .ltEq (.inl (by decide))
    | ge => exact lexes_spaced .gtEq (.inl (by decide))
    | eq => exact lexes_spaced .eqEq (.inl (by decide))
    | ne => exact lexes_spaced .bangEq (.inl (by decide))
    | mem => exact lexes_spaced .kwIn (.inr (by decide))
    | notMem => exact lexes_notIn
  have hbalanced : Balanced ((compareSymbols op).map .symbol) := by
    cases op with
    | notMem => exact .cons (.single (fun _ => rfl) rfl) (.single (fun _ => rfl) rfl)
    | _ => exact .single (fun _ => rfl) rfl
  exact hleft.infix hright hlexes hbalanced

/-- A sign or a negation before its operand. -/
theorem legible_unary (op : UnaryOp) {text : String} {kinds : List TokenKind}
    (h : Legible text kinds) :
    Legible (renderSign op ++ text) (.symbol (unarySymbol op) :: kinds) where
  lexes := by
    rw [String.toList_append]
    cases op with
    | neg =>
      exact (lexes_operator .minus (by decide)).append h.lexes fun tail _ =>
        h.begins.operatorEnds tail
    | pos =>
      exact (lexes_operator .plus (by decide)).append h.lexes fun tail _ =>
        h.begins.operatorEnds tail
    | not =>
      have hnot : Lexes (fun _ => True) (Symbol.kwNot.spelling.toList ++ [' ']) [.symbol .kwNot] :=
        (lexes_keyword _ (by decide)).append lexes_space fun tail _ => ends_cons (by decide) tail
      exact hnot.append h.lexes fun _ _ => trivial
  balanced := by
    have hsign : Balanced [.symbol (unarySymbol op)] := by cases op <;> exact .single (fun _ => rfl) rfl
    exact hsign.append h.balanced
  begins := by
    rw [String.toList_append]
    refine Begins.append ?_ _
    cases op with
    | neg => exact ⟨'-', [], rfl, by decide⟩
    | pos => exact ⟨'+', [], rfl, by decide⟩
    | not => exact ⟨'n', ['o', 't', ' '], rfl, by decide⟩
  nonempty := List.cons_ne_nil _ _

/-! ### Names and constants -/

theorem begins_of_isWordStart {c : Char} {cs : List Char} (h : Text.isWordStart c = true) :
    Begins (c :: cs) := by
  refine ⟨c, cs, rfl, fun hc => ?_⟩
  have hclass : ∀ c ∈ ['=', '>', '/', '*', ' ', '\t', '\x0c', '\n', '\r', '#'],
      Text.isWordStart c = false := by decide
  rw [hclass c hc] at h
  cases h

theorem begins_of_isDigit {text : List Char} (h : text.head?.any Char.isDigit = true) :
    Begins text := by
  cases text with
  | nil => cases h
  | cons c cs =>
    refine ⟨c, cs, rfl, fun hc => ?_⟩
    have hclass : ∀ c ∈ ['=', '>', '/', '*', ' ', '\t', '\x0c', '\n', '\r', '#'],
        c.isDigit = false := by decide
    rw [List.head?_cons, Option.any_some, hclass c hc] at h
    cases h

theorem legible_name {id : String} (h : IsIdentifier id) : Legible id [.name id] where
  lexes := lexes_identifier h
  balanced := .single (fun _ => rfl) rfl
  begins := by
    obtain ⟨⟨c, cs, hid, hc, -⟩, -⟩ := h
    rw [hid]
    exact begins_of_isWordStart hc
  nonempty := List.cons_ne_nil _ _

theorem legible_keyword (keyword : Symbol) (h : keyword ∈ Symbol.keywords) :
    Legible keyword.spelling [.symbol keyword] where
  lexes := lexes_keyword keyword h
  balanced := balanced_keyword h
  begins := by
    obtain ⟨-, c, cs, htext, hc, -⟩ := keyword_form h
    rw [htext]
    exact begins_of_isWordStart hc
  nonempty := List.cons_ne_nil _ _

theorem legible_literal {value : Literal} (h : IsPlainLiteral value) :
    Legible (renderLiteral value) [literalKind value] := by
  cases value with
  | none => exact legible_keyword .kwNone (by decide)
  | bool value =>
    cases value with
    | true => exact legible_keyword .kwTrue (by decide)
    | false => exact legible_keyword .kwFalse (by decide)
  | int value =>
    refine ⟨⟨lexes_int h, .single (fun _ => rfl) rfl⟩, begins_of_isDigit ?_, List.cons_ne_nil _ _⟩
    obtain ⟨n, -, htext⟩ := toString_toInt h
    show (toString value.toInt).toList.head?.any Char.isDigit = true
    rw [htext]
    exact isDigit_head_of_areDigits (Number.areDigits_digits n)
  | float value =>
    refine ⟨⟨lexes_float h, .single (fun _ => rfl) rfl⟩, begins_of_isDigit ?_, List.cons_ne_nil _ _⟩
    exact isDigit_head_of_form (Number.write_source_form h.1 h.2)
  | str value =>
    have htext : (renderLiteral (.str value)).toList =
        '"' :: ((String.join (value.toList.map escape)).toList ++ ['"']) := by
      simp [renderLiteral]
    exact ⟨⟨lexes_string value, .single (fun _ => rfl) rfl⟩, ⟨'"', _, htext, by decide⟩,
      List.cons_ne_nil _ _⟩

/-! ### Expressions -/

theorem Readable.nil : Readable "" [] := ⟨Lexes.nil, .nil⟩

theorem Readable.append {text more : String} {kinds moreKinds : List TokenKind}
    (h : Readable text kinds) (hmore : Readable more moreKinds)
    (hends : ∀ tail, Ends tail → Ends (more.toList ++ tail)) :
    Readable (text ++ more) (kinds ++ moreKinds) where
  lexes := by
    rw [String.toList_append]
    exact h.lexes.append hmore.lexes hends
  balanced := h.balanced.append hmore.balanced

/-- Something after a comma. -/
theorem Readable.afterComma {text : String} {kinds : List TokenKind} (h : Readable text kinds) :
    Readable (", " ++ text) (.symbol .comma :: kinds) where
  lexes := by
    rw [String.toList_append]
    have hcomma : Lexes (fun _ => True) ([','] ++ [' ']) [.symbol .comma] :=
      (lexes_comma fun _ => True).append lexes_space fun _ _ => trivial
    exact hcomma.append h.lexes fun _ _ => trivial
  balanced := (Balanced.single (fun _ => rfl) rfl).cons h.balanced

/-- Something after a keyword. -/
theorem Readable.afterKeyword {text : String} {kinds : List TokenKind} (h : Readable text kinds)
    (keyword : Symbol) (hkeyword : keyword ∈ Symbol.keywords) :
    Readable (" " ++ keyword.spelling ++ " " ++ text) (.symbol keyword :: kinds) where
  lexes := by
    have hspaced : Lexes (fun _ => True) ([' '] ++ keyword.spelling.toList ++ [' '])
        [.symbol keyword] := lexes_spaced keyword (.inr hkeyword)
    simpa using hspaced.append h.lexes fun _ _ => trivial
  balanced := (balanced_keyword hkeyword).cons h.balanced

theorem ends_furtherTexts (least : Strength) (items : List (Expr α)) {tail : List Char}
    (h : Ends tail) : Ends ((furtherTexts least items).toList ++ tail) := by
  cases items with
  | nil => exact h
  | cons e rest =>
    rw [furtherTexts, String.append_assoc, String.toList_append]
    exact ends_cons (by decide) _

theorem ends_condText (cond : Option (Expr α)) {tail : List Char} (h : Ends tail) :
    Ends ((condText cond).toList ++ tail) := by
  cases cond with
  | none => exact h
  | some e =>
    rw [condText, String.toList_append]
    exact ends_cons (by decide) _

/-- The clauses of a comprehension. -/
theorem legible_clauses {element source cond var : String} {kinds kinds' condKinds : List TokenKind}
    (helement : Legible element kinds) (hvar : IsIdentifier var) (hsource : Readable source kinds')
    (hcond : Readable cond condKinds)
    (hends : ∀ tail, Ends tail → Ends (cond.toList ++ tail)) :
    Legible (element ++ " for " ++ var ++ " in " ++ source ++ cond)
      (kinds ++ .symbol .kwFor :: .name var :: .symbol .kwIn :: (kinds' ++ condKinds)) := by
  have hin := (hsource.append hcond hends).afterKeyword .kwIn (by decide)
  have hfor := ((legible_name hvar).toReadable.append hin fun tail _ => by
    simp only [String.toList_append]
    exact ends_cons (by decide) _).afterKeyword .kwFor (by decide)
  have hall := helement.followed hfor fun tail _ => by
    simp only [String.toList_append]
    exact ends_cons (by decide) _
  have htext : element ++ " for " ++ var ++ " in " ++ source ++ cond =
      element ++ (" " ++ Symbol.kwFor.spelling ++ " " ++
        (var ++ (" " ++ Symbol.kwIn.spelling ++ " " ++ (source ++ cond)))) := by
    have hwords : " " ++ Symbol.kwFor.spelling ++ " " = " for " ∧
        " " ++ Symbol.kwIn.spelling ++ " " = " in " := by decide
    rw [hwords.1, hwords.2]
    simp only [String.append_assoc]
  rw [htext]
  exact hall

mutual

/-- The text of an expression is read as its tokens. -/
theorem legible_bareText : ∀ {e : Expr α} {n : Nat}, e.Fits n → Legible (bareText e) (bareKinds e)
  | .name .., _, h => legible_name h
  | .constant .., _, h => legible_literal h
  | .list _ items, n, h => by
    refine Readable.bracketed ?_
    by_cases hitems : items = []
    · rw [hitems]
      exact .nil
    · exact readable_bareTexts (h hitems).2
  | .comprehension _ .list element var source cond, _, h =>
    (legible_clauses ((legible_bareText h.2.2.1.fits).enclose _) h.2.1
      ((legible_bareText h.2.2.2.1.fits).enclose _).toReadable (readable_condText h.2.2.2.2)
      fun _ => ends_condText cond).bracketed
  | .comprehension _ .generator element var source cond, _, h =>
    legible_clauses ((legible_bareText h.2.1.fits).enclose _) h.1
      ((legible_bareText h.2.2.1.fits).enclose _).toReadable (readable_condText h.2.2.2)
      fun _ => ends_condText cond
  | .binary _ op left right, n, h => by
    have hright : right.Fits n := by
      have hright := h.2
      split at hright
      · exact hright.2.fits.mono (by omega)
      · exact hright.fits
    exact legible_binary op ((legible_bareText h.1.fits).enclose _)
      ((legible_bareText hright).enclose _).toReadable
  | .unary _ op operand, _, h => legible_unary op ((legible_bareText h.2.fits).enclose _)
  | .logic _ op left right, _, h =>
    legible_logic op ((legible_bareText h.1.fits).enclose _)
      ((legible_bareText h.2.fits).enclose _).toReadable
  | .compare _ op left right, _, h =>
    legible_compare op ((legible_bareText h.1.fits).enclose _)
      ((legible_bareText h.2.fits).enclose _).toReadable
  | .call _ callee args, _, h => by
    have hargs : Readable
        (bareTexts (if isSoleGenerator args then Strength.generator else Strength.or) args)
        (itemKinds (if isSoleGenerator args then Strength.generator else Strength.or) args) := by
      by_cases hempty : args = []
      · rw [hempty]
        exact .nil
      · exact readable_bareTexts (h.2 hempty).2
    have hcall := ((legible_bareText h.1.fits).enclose Strength.atom).followed
      hargs.parenthesized.toReadable fun tail _ => by
        simp only [String.toList_append]
        exact ends_cons (by decide) _
    rw [bareText, bareKinds]
    simpa only [String.append_assoc] using hcall
  | .attribute _ value attr, _, h => by
    have hattr : Readable ("." ++ attr) [.symbol .dot, .name attr] := by
      refine ⟨?_, (Balanced.single (fun _ => rfl) rfl).cons (.single (fun _ => rfl) rfl)⟩
      rw [String.toList_append]
      refine lexes_dot.append (lexes_identifier h.2) fun tail _ => ?_
      obtain ⟨⟨c, cs, hid, hc, -⟩, -⟩ := h.2
      rw [hid]
      exact hc
    have hall := ((legible_bareText h.1.fits).enclose Strength.atom).followed hattr fun tail _ => by
      obtain ⟨⟨c, cs, hid, hc, -⟩, -⟩ := h.2
      rw [String.toList_append, hid]
      exact .inr ⟨c, cs ++ tail, rfl, hc⟩
    rw [bareText, bareKinds]
    simpa only [String.append_assoc] using hall
  | .subscript _ value index, _, h => by
    have hall := ((legible_bareText h.1.fits).enclose Strength.atom).followed
      ((legible_bareText h.2.2.fits).enclose Strength.or).bracketed.toReadable fun tail _ => by
        simp only [String.toList_append]
        exact ends_cons (by decide) _
    rw [bareText, bareKinds]
    simpa only [String.append_assoc] using hall

theorem readable_bareTexts {least : Strength} : ∀ {items : List (Expr α)} {n : Nat},
    Expr.FitAll n least items → Readable (bareTexts least items) (itemKinds least items)
  | [], _, _ => .nil
  | _ :: rest, _, h =>
    ((legible_bareText h.1.fits).enclose least).toReadable.append (readable_furtherTexts h.2)
      fun _ => ends_furtherTexts least rest

theorem readable_furtherTexts {least : Strength} : ∀ {items : List (Expr α)} {n : Nat},
    Expr.FitAll n least items → Readable (furtherTexts least items) (furtherKinds least items)
  | [], _, _ => .nil
  | _ :: rest, _, h => by
    have hitems := ((legible_bareText h.1.fits).enclose least).toReadable.append
      (readable_furtherTexts h.2) fun _ => ends_furtherTexts least rest
    rw [furtherTexts, furtherKinds]
    simpa only [String.append_assoc] using hitems.afterComma

theorem readable_condText : ∀ {cond : Option (Expr α)} {n : Nat}, Expr.FitCond n cond →
    Readable (condText cond) (condKinds cond)
  | none, _, _ => .nil
  | some _, _, h =>
    ((legible_bareText (EnclosedFits.fits h)).enclose Strength.or).toReadable.afterKeyword .kwIf (by decide)

end

/-- The text of an expression in a statement is read as its tokens. -/
theorem legible_expressionText {e : Expr α} {n : Nat} (h : e.FitsStmt n) :
    Legible (expressionText e) (expressionKinds e) :=
  (legible_bareText h.2.fits).enclose Strength.or

end ProgramBreeding.Source

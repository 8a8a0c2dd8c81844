import ProgramBreeding.Proofs.Number.RoundTrip
import ProgramBreeding.Proofs.Source.Nesting

/-!
# The lexemes of a text

Whatever the text, the scanner only finds names that are identifiers and numbers without
a sign.

## Main definitions

* `Scan.AllPlain` — what the scanner has found so far is plain.

## Main results

* `tokenize_isPlain` — every token of a text is plain.
* `fits_of_parse` — a program that was read can be written down within the nesting limit.
-/

namespace ProgramBreeding.Source

theorem isWordPart_of_isWordStart {c : Char} (h : Text.isWordStart c = true) :
    Text.isWordPart c = true := by
  unfold Text.isWordStart at h
  unfold Text.isWordPart Text.isAlphanumeric
  rcases (Bool.or_eq_true _ _).mp h with h | h <;> simp [h]

theorem numberKind_isPlain {n : Scan.NumberSpan} {kind : TokenKind}
    (h : Scan.numberKind n = .ok kind) : kind.IsPlain := by
  unfold Scan.numberKind at h
  extract_lets text at h
  split at h
  · split at h
    · cases h
    · rename_i value hvalue
      split at h
      · rename_i hfinite
        cases h
        exact ⟨hfinite, Number.isNegative_of_readUnsigned hvalue⟩
      · cases h
  · split at h
    · cases h
    · rename_i value hvalue
      cases h
      show 0 ≤ value.toInt
      rw [Checked.toInt_of_word? hvalue]
      exact Int.natCast_nonneg _

namespace Scan

/-- All tokens found so far are plain. -/
def AllPlain (s : Scan) : Prop := ∀ t ∈ s.tokens, t.kind.IsPlain

theorem AllPlain.emit {s : Scan} (hs : s.AllPlain) {kind : TokenKind} (hkind : kind.IsPlain)
    (column : Nat) : (s.emit kind column).AllPlain :=
  List.forall_mem_cons.mpr ⟨hkind, hs⟩

theorem AllPlain.closeBlocks {width : Nat} : ∀ {indents : List Nat} {s : Scan}, s.AllPlain →
    (closeBlocks width indents s).AllPlain
  | [], _, hs => hs
  | w :: outer, s, hs => by
    unfold Scan.closeBlocks
    split
    · exact AllPlain.closeBlocks (hs.emit (show TokenKind.dedent.IsPlain from trivial) 1)
    · exact hs

theorem AllPlain.indentTo {s next : Scan} (hs : s.AllPlain) {width : Nat}
    (h : s.indentTo width = .ok next) : next.AllPlain := by
  unfold Scan.indentTo at h
  split at h
  · cases h
    exact AllPlain.emit hs (show TokenKind.indent.IsPlain from trivial) 1
  · dsimp only at h
    split at h
    · cases h
      exact hs.closeBlocks
    · cases h

theorem AllPlain.indentation {s next : Scan} (hs : s.AllPlain)
    (h : s.indentation = .ok next) : next.AllPlain := by
  unfold Scan.indentation at h
  split at h
  dsimp only at h
  split at h
  · cases h; exact hs
  · cases h; exact hs
  · cases h; exact hs
  · split at h
    · cases h; exact hs
    · cases h; exact hs
  · exact AllPlain.indentTo (by exact hs) h

theorem AllPlain.newline {s : Scan} (hs : s.AllPlain) (rest : List Char) :
    (s.newline rest).AllPlain := by
  unfold Scan.newline
  extract_lets ended
  have hended : ended.AllPlain := by
    unfold ended
    split
    · exact hs.emit (show TokenKind.newline.IsPlain from trivial) _
    · exact hs
  exact hended

theorem AllPlain.number {s next : Scan} (hs : s.AllPlain) (h : s.number = .ok next) :
    next.AllPlain := by
  unfold Scan.number at h
  extract_lets n after at h
  split at h
  · cases h
  · split at h
    · cases h
    · rename_i kind hkind
      cases h
      exact AllPlain.emit hs (numberKind_isPlain hkind) _

theorem AllPlain.word {s : Scan} (hs : s.AllPlain) {c : Char} {rest : List Char}
    (hrest : s.rest = c :: rest) (hc : Text.isWordStart c = true) : s.word.AllPlain := by
  unfold Scan.word
  extract_lets cs text kind
  refine AllPlain.emit hs ?_ _
  have hcs : cs = c :: rest.takeWhile Text.isWordPart := by
    show s.rest.takeWhile Text.isWordPart = _
    rw [hrest, List.takeWhile_cons_of_pos (isWordPart_of_isWordStart hc)]
  unfold kind
  cases hkeyword : Symbol.keyword? text with
  | some keyword => exact trivial
  | none =>
    refine ⟨⟨c, rest.takeWhile Text.isWordPart, ?_, hc, fun d hd => ?_⟩, hkeyword⟩
    · rw [String.toList_ofList, hcs]
    · exact List.all_eq_true.mp List.all_takeWhile d hd

theorem stringAfter_tokens {s after : Scan} {quote : Char} {value : String} :
    ∀ {rest found : List Char} {count : Nat},
      s.stringAfter quote found count rest = .ok (value, after) → after.tokens = s.tokens := by
  intro rest found count h
  fun_induction Scan.stringAfter s quote found count rest with
  | case1 => cases h
  | case2 => cases h
  | case3 => cases h; rfl
  | case4 => cases h
  | case5 => cases h
  | case6 _ _ _ _ _ _ _ _ _ _ ih => exact ih h
  | case7 _ _ _ _ _ _ _ ih => exact ih h

theorem AllPlain.string {s next : Scan} (hs : s.AllPlain) {quote : Char} {rest : List Char}
    (h : s.string quote rest = .ok next) : next.AllPlain := by
  unfold Scan.string at h
  split at h
  · cases h
  · split at h
    · cases h
    · rename_i value after hafter
      cases h
      have hsame : after.AllPlain := by
        unfold AllPlain
        rwa [stringAfter_tokens hafter]
      exact hsame.emit (show (TokenKind.str value).IsPlain from trivial) _

theorem AllPlain.operator {s next : Scan} (hs : s.AllPlain) {c : Char}
    (h : s.operator c = .ok next) : next.AllPlain := by
  unfold Scan.operator at h
  split at h
  · cases h
  · rename_i op _
    cases h
    exact AllPlain.emit (by exact hs) (show (TokenKind.symbol op).IsPlain from trivial) _

theorem AllPlain.lexeme {s next : Scan} (hs : s.AllPlain) {c : Char} {rest : List Char}
    (hrest : s.rest = c :: rest) (h : s.lexeme c rest = .ok next) : next.AllPlain := by
  unfold Scan.lexeme at h
  split at h
  · cases h; exact hs.newline rest
  split at h
  · cases h; exact hs
  split at h
  · cases h; exact hs
  split at h
  · cases h; exact hs
  split at h
  · exact hs.number h
  split at h
  · rename_i hword
    cases h
    exact hs.word hrest hword
  split at h
  · exact hs.string h
  · exact hs.operator h

/-- One step further only lexemes have been found. -/
theorem AllPlain.step {s next : Scan} (hs : s.AllPlain) (h : s.step = .ok next) :
    next.AllPlain := by
  unfold Scan.step at h
  split at h
  · exact hs.indentation h
  · split at h
    · cases h; exact hs
    · rename_i c rest hrest
      exact hs.lexeme hrest h

theorem AllPlain.run : ∀ {count : Nat} {s last : Scan}, s.AllPlain → run count s = .ok last →
    last.AllPlain
  | 0, s, last, hs, h => by cases h; exact hs
  | count + 1, s, last, hs, h => by
    unfold Scan.run at h
    split at h
    · cases h; exact hs
    · split at h
      · cases h
      · rename_i next hnext
        exact AllPlain.run (hs.step hnext) h

theorem AllPlain.finish {s : Scan} (hs : s.AllPlain) : ∀ t ∈ s.finish, t.kind.IsPlain := by
  intro t ht
  unfold Scan.finish at ht
  rw [List.mem_reverse] at ht
  refine AllPlain.emit ?_ (show TokenKind.endOfInput.IsPlain from trivial) _ t ht
  refine AllPlain.closeBlocks ?_
  split
  · exact hs
  · split
    · exact hs
    · exact hs
    · exact hs.emit (show TokenKind.newline.IsPlain from trivial) _

end Scan

/-- Every token of a text is plain. -/
theorem tokenize_isPlain {text : String} {ts : List Token} (h : tokenize text = .ok ts) :
    ∀ t ∈ ts, t.kind.IsPlain := by
  unfold tokenize at h
  dsimp only at h
  split at h
  · cases h
  · rename_i s hs
    cases h
    exact (Scan.AllPlain.run (by exact nofun) hs).finish

/-- A program that was read can be written down within the nesting limit. -/
theorem fits_of_parse {text : String} {body : Block Line} (h : parse text = .ok body) :
    Block.Fits maxNesting body := by
  obtain ⟨ts, htokens, htree⟩ := parse_eq_ok.mp h
  exact fits_of_parseTokens (tokenize_isPlain htokens) htree

end ProgramBreeding.Source

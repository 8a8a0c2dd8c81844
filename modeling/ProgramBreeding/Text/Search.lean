import ProgramBreeding.Text.Character

/-!
# Parts of a text

Trimming, splitting and replacing.  All searches go from left to right and find
occurrences that do not overlap.

## Main definitions

* `trim` — the text without the blanks at its ends.
* `words` — the maximal runs without blanks.
* `splitAt` — the pieces between the occurrences of a separator.
* `replace` — the text with every occurrence of a pattern replaced.
* `contains`, `startsWith`, `endsWith` — occurrences anywhere and at the ends.
-/

namespace ProgramBreeding.Text

/-- The text without the blanks at its ends. -/
def trim (text : String) : String :=
  String.ofList ((text.toList.dropWhile isBlank).reverse.dropWhile isBlank).reverse

/-- The pieces of a list between the occurrences of `separator`.  The first `skip`
characters belong to an occurrence already found; `piece` and `pieces` are reversed. -/
def piecesAfter (separator : List Char) :
    Nat → List Char → List (List Char) → List Char → List (List Char)
  | _, piece, pieces, [] => (piece.reverse :: pieces).reverse
  | skip + 1, piece, pieces, _ :: rest => piecesAfter separator skip piece pieces rest
  | 0, piece, pieces, c :: rest =>
    if separator.isPrefixOf (c :: rest) then
      piecesAfter separator (separator.length - 1) [] (piece.reverse :: pieces) rest
    else
      piecesAfter separator 0 (c :: piece) pieces rest

/-- The pieces of a text between the occurrences of a separator that is not empty. -/
def splitAt (separator text : String) : List String :=
  (piecesAfter separator.toList 0 [] [] text.toList).map String.ofList

/-- The maximal runs of characters that are not blank; `word` and `found` are
reversed. -/
def wordsAfter : List Char → List (List Char) → List Char → List (List Char)
  | word, found, [] => (if word.isEmpty then found else word.reverse :: found).reverse
  | word, found, c :: rest =>
    if isBlank c then
      wordsAfter [] (if word.isEmpty then found else word.reverse :: found) rest
    else
      wordsAfter (c :: word) found rest

/-- The words of a text. -/
def words (text : String) : List String := (wordsAfter [] [] text.toList).map String.ofList

/-- The text with every occurrence of a pattern that is not empty replaced. -/
def replace (pattern replacement text : String) : String :=
  replacement.intercalate (splitAt pattern text)

/-- Whether `pattern` occurs at some position of the list. -/
def occursIn (pattern : List Char) : List Char → Bool
  | [] => pattern.isEmpty
  | c :: rest => pattern.isPrefixOf (c :: rest) || occursIn pattern rest

/-- Whether a text holds another one. -/
def contains (text pattern : String) : Bool := occursIn pattern.toList text.toList

/-- Whether a text starts with another one. -/
def startsWith (text pattern : String) : Bool := pattern.toList.isPrefixOf text.toList

/-- Whether a text ends with another one. -/
def endsWith (text pattern : String) : Bool := pattern.toList.isSuffixOf text.toList

end ProgramBreeding.Text

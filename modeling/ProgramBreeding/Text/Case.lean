import ProgramBreeding.Text.Table.Cased
import ProgramBreeding.Text.Table.CaseMap

/-!
# Upper and lower case

The full Unicode case maps.  One rule looks at the neighbours of a character: a
capital sigma at the end of a word becomes a final sigma.
-/

namespace ProgramBreeding.Text

/-- The image of a character under a case map given by runs and expansions. -/
def mapCase (shifts : Array CaseShift) (expansions : Array (Nat × List Nat)) (c : Char) :
    List Char :=
  match expansions.find? fun entry => entry.1 == c.toNat with
  | some (_, image) => image.map Char.ofNat
  | none =>
    match shifts.findSome? fun shift => shift.apply? c.toNat with
    | some code => [Char.ofNat code]
    | none => [c]

/-- The upper case of one character. -/
def upperCharacter (c : Char) : List Char :=
  if c.toNat < 128 then [c.toUpper] else mapCase upperShifts upperExpansions c

/-- The lower case of one character that stands alone. -/
def lowerCharacter (c : Char) : List Char :=
  if c.toNat < 128 then [c.toLower] else mapCase lowerShifts lowerExpansions c

/-- A text in upper case. -/
def upper (text : String) : String :=
  String.ofList (text.toList.flatMap upperCharacter)

/-- Whether the first character that is not ignored for case is a cased one. -/
def meetsCased (text : List Char) : Bool :=
  match text.dropWhile fun c => caseIgnorableRanges.contains c.toNat with
  | [] => false
  | c :: _ => casedRanges.contains c.toNat

/-- The lower case of the characters that follow `before`, which is reversed; `done`
is the reversed result so far. -/
def lowerAfter (before done : List Char) : List Char → List Char
  | [] => done.reverse
  | c :: rest =>
    let image :=
      if c == 'Σ' then (if meetsCased before && !meetsCased rest then ['ς'] else ['σ'])
      else lowerCharacter c
    lowerAfter (c :: before) (image.reverse ++ done) rest

/-- A text in lower case. -/
def lower (text : String) : String := String.ofList (lowerAfter [] [] text.toList)

end ProgramBreeding.Text

import ProgramBreeding.Number.Shortest

/-!
# Written numbers

How doubles are written: the shortest digits in one of several layouts, or a fixed
number of decimal places.

## Main definitions

* `FloatLayout` — the decisions of a layout.
* `FloatLayout.write` — a double in a layout.
* `sourceLayout`, `valueLayout`, `dataLayout`, `plainLayout` — the four layouts of
  this library.
* `fixedPlaces` — a double with a fixed number of decimal places.
-/

namespace ProgramBreeding.Number

/-- The decimal digits of a number. -/
def digits (n : Nat) : String := String.ofList (Nat.toDigits 10 n)

/-- A text of zeros. -/
def zeros (n : Nat) : String := String.ofList (List.replicate n '0')

/-- The decisions of a layout for doubles.  The leading digit of a number stands for
a power of ten; between `leastPositional` and `greatestPositional` the number is
written without an exponent. -/
structure FloatLayout where
  /-- Which of two equally near shortest decimals is taken. -/
  tie : Tie
  /-- The least exponent written positionally; none if all small ones are. -/
  leastPositional : Option Int
  /-- The greatest exponent written positionally; none if all great ones are. -/
  greatestPositional : Option Int
  /-- What follows a whole number written positionally. -/
  wholeMark : String
  /-- What precedes an exponent that is not negative. -/
  plusMark : String
  /-- The least number of digits of an exponent. -/
  exponentWidth : Nat
  /-- The texts of an undefined result and of infinity. -/
  undefined : String
  infinite : String

/-- A literal in source text. -/
def sourceLayout : FloatLayout where
  tie := .up
  leastPositional := some (-4)
  greatestPositional := some 15
  wholeMark := ".0"
  plusMark := ""
  exponentWidth := 1
  undefined := "NaN"
  infinite := "inf"

/-- A value as programs of the object language print it. -/
def valueLayout : FloatLayout where
  tie := .up
  leastPositional := some (-4)
  greatestPositional := some 15
  wholeMark := ".0"
  plusMark := "+"
  exponentWidth := 2
  undefined := "nan"
  infinite := "inf"

/-- A number in JSON text. -/
def dataLayout : FloatLayout where
  tie := .even
  leastPositional := some (-5)
  greatestPositional := some 15
  wholeMark := ".0"
  plusMark := "+"
  exponentWidth := 1
  undefined := "null"
  infinite := "null"

/-- A number in a message: never with an exponent. -/
def plainLayout : FloatLayout where
  tie := .up
  leastPositional := none
  greatestPositional := none
  wholeMark := ""
  plusMark := ""
  exponentWidth := 1
  undefined := "NaN"
  infinite := "inf"

/-- Digits with a point after the first `whole` of them. -/
def placePoint (ds : String) (whole : Nat) : String :=
  String.ofList (ds.toList.take whole) ++ "." ++ String.ofList (ds.toList.drop whole)

/-- A decimal written without an exponent. -/
def positional (wholeMark : String) (d : Decimal) : String :=
  let ds := digits d.coefficient
  if 0 ≤ d.exponent then ds ++ zeros d.exponent.toNat ++ wholeMark
  else
    let places := (-d.exponent).toNat
    if places < ds.length then placePoint ds (ds.length - places)
    else "0." ++ zeros (places - ds.length) ++ ds

/-- An exponent in a layout. -/
def FloatLayout.writeExponent (layout : FloatLayout) (exponent : Int) : String :=
  let ds := digits exponent.natAbs
  (if exponent < 0 then "-" else layout.plusMark) ++ zeros (layout.exponentWidth - ds.length) ++ ds

/-- A decimal written with one digit before the point and an exponent. -/
def FloatLayout.scientific (layout : FloatLayout) (d : Decimal) : String :=
  let ds := digits d.coefficient
  let mantissa := if ds.length ≤ 1 then ds else placePoint ds 1
  mantissa ++ "e" ++ layout.writeExponent (d.exponent + ds.length - 1)

/-- A positive finite double in a layout. -/
def FloatLayout.writePositive (layout : FloatLayout) (x : Double) : String :=
  let d := shortest layout.tie x
  let leading := d.exponent + (digits d.coefficient).length - 1
  if (layout.leastPositional.all fun least => least ≤ leading) &&
      (layout.greatestPositional.all fun greatest => leading ≤ greatest) then
    positional layout.wholeMark d
  else
    layout.scientific d

/-- A double in a layout. -/
def FloatLayout.write (layout : FloatLayout) (x : Double) : String :=
  if x.isNaN then layout.undefined
  else
    let sign := if x.isNegative then "-" else ""
    if x.isInfinite then sign ++ layout.infinite
    else if x.isZero then sign ++ "0" ++ layout.wholeMark
    else sign ++ layout.writePositive x.abs

/-- A finite double with a fixed number of decimal places; a tie goes to the even
neighbour. -/
def fixedPlaces (places : Nat) (x : Double) : String :=
  if x.isNaN then "NaN"
  else
    let sign := if x.isNegative then "-" else ""
    if x.isInfinite then sign ++ "inf"
    else
      let v := x.fraction
      let scaled := digits (roundHalfEven (v.1 * Nat.pow 10 places) v.2)
      let padded := zeros (places + 1 - scaled.length) ++ scaled
      sign ++ (if places = 0 then padded else placePoint padded (padded.length - places))

end ProgramBreeding.Number

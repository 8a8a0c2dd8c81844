import ProgramBreeding.Number.Double
import ProgramBreeding.Number.Checked

/-!
# Numerals

Reading numbers: whole numbers in the 64-bit range, and decimal numerals as the
nearest double.

## Main definitions

* `readInteger` — an optional sign and digits, if the value is a 64-bit word.
* `decimalValue` — the double nearest to the value of digits times a power of ten.
* `readFloat` — a decimal numeral or the name of a value that is not finite.
-/

namespace ProgramBreeding.Number

/-- The value of a list of decimal digits. -/
def digitsValue (ds : List Char) : Nat :=
  ds.foldl (fun value d => 10 * value + (d.toNat - 48)) 0

/-- A sign, if there is one, and what follows it. -/
def splitSign : List Char → Bool × List Char
  | '-' :: rest => (true, rest)
  | '+' :: rest => (false, rest)
  | rest => (false, rest)

/-- The value of an optional sign and at least one digit, given that of digits. -/
def readSigned (valueOf : List Char → Nat) (cs : List Char) : Option Int :=
  let (negative, ds) := splitSign cs
  if ds.isEmpty || !ds.all Char.isDigit then none
  else some (if negative then -(valueOf ds : Int) else valueOf ds)

/-- The 64-bit word that a text denotes. -/
def readInteger (text : String) : Option Int64 :=
  (readSigned digitsValue text.toList).bind Checked.word?

/-- The double nearest to the value of digits times `10 ^ exponent`.  Zeros in front do
not count as digits: with them left out, the number of digits tells how great the value
is, and beyond the range of doubles no power is computed. -/
def decimalValue (ds : List Char) (exponent : Int) : Double :=
  let significant := ds.dropWhile (· == '0')
  let magnitude := exponent + significant.length
  if significant.isEmpty then 0.0
  else if 400 < magnitude then Double.infinity false
  else if magnitude < -400 then 0.0
  else Double.ofDecimal (digitsValue significant) exponent

/-- The digits at the start of a list, and the rest. -/
def spanDigits (cs : List Char) : List Char × List Char :=
  (cs.takeWhile Char.isDigit, cs.dropWhile Char.isDigit)

/-- The value of the digits of an exponent.  Digits after the value has reached 65536
are left out, so it stays below 655360. -/
def exponentValue (ds : List Char) : Nat :=
  ds.foldl (fun value d => if value < 65536 then 10 * value + (d.toNat - 48) else value) 0

/-- The exponent at the end of a numeral; none stands for zero. -/
def readExponent : List Char → Option Int
  | [] => some 0
  | c :: rest =>
    if c == 'e' || c == 'E' then readSigned exponentValue rest else none

/-- A numeral without a sign: digits with at most one point among them, at least one
digit, and at most one exponent. -/
def readUnsigned (cs : List Char) : Option Double :=
  let (whole, rest) := spanDigits cs
  let (fraction, rest) :=
    match rest with
    | '.' :: rest => spanDigits rest
    | rest => ([], rest)
  let ds := whole ++ fraction
  if ds.isEmpty then none
  else
    (readExponent rest).map fun exponent =>
      decimalValue ds (exponent - fraction.length)

/-- The names of the values that are not finite. -/
def readNonFinite (cs : List Char) : Option Double :=
  match String.ofList (cs.map Char.toLower) with
  | "inf" => some (Double.infinity false)
  | "infinity" => some (Double.infinity false)
  | "nan" => some Double.undefined
  | _ => none

/-- The double that a text denotes, if it is a numeral or names a value that is not
finite, with at most one sign before it. -/
def readFloat (text : String) : Option Double :=
  let (negative, cs) := splitSign text.toList
  ((readUnsigned cs).or (readNonFinite cs)).map fun x => if negative then -x else x

end ProgramBreeding.Number

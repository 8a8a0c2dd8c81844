import ProgramBreeding.Number.Binary

/-!
# Doubles

Floating-point numbers of 64 bits, with arithmetic that rounds every result to the
nearest double.

## Main definitions

* `Double` — a double by its bits.
* `Double.significand`, `Double.exponent` — the parts of a finite double.
* `Double.nearest` — the double nearest to a fraction.
* `Double.less`, `Double.atMost`, `Double.equals` — comparisons of numbers.
* `Double.add`, `Double.mul` and so on — arithmetic.

## Design notes

Everything is computed in exact arithmetic on the bits, so that facts about doubles are
facts about whole numbers.  Two doubles with different bits are different, the two
zeros included; `equals` says whether they are the same number.

An operation that has no value yields an undefined double with its sign set.  An
operation on undefined doubles yields the first of them.
-/

namespace ProgramBreeding

open Number

/-- A double: a sign, eleven bits of exponent and 52 bits of significand. -/
structure Double where
  bits : UInt64
  deriving DecidableEq, Inhabited, Repr

namespace Double

/-! ### Parts -/

/-- The bits without the sign. -/
def magnitude (x : Double) : UInt64 := x.bits &&& 0x7FFFFFFFFFFFFFFF

/-- Whether the sign is set. -/
def isNegative (x : Double) : Bool := 0x8000000000000000 ≤ x.bits

/-- The double with a sign and a magnitude. -/
def ofMagnitude (negative : Bool) (magnitude : UInt64) : Double :=
  ⟨if negative then magnitude ||| 0x8000000000000000 else magnitude⟩

/-- Whether a double is not a number at all. -/
def isNaN (x : Double) : Bool := 0x7FF0000000000000 < x.magnitude

/-- Whether a double is infinite. -/
def isInfinite (x : Double) : Bool := x.magnitude == 0x7FF0000000000000

/-- Whether a double is a finite number. -/
def isFinite (x : Double) : Bool := x.magnitude < 0x7FF0000000000000

/-- Whether a double is one of the zeros. -/
def isZero (x : Double) : Bool := x.magnitude == 0

/-- Infinity. -/
def infinity (negative : Bool) : Double := ofMagnitude negative 0x7FF0000000000000

/-- An undefined double without a sign. -/
def undefined : Double := ⟨0x7FF8000000000000⟩

/-- The result of an operation that has no value. -/
def invalid : Double := ⟨0xFFF8000000000000⟩

/-- An undefined double as the result of an operation on it. -/
def quiet (x : Double) : Double := ⟨x.bits ||| 0x0008000000000000⟩

/-- The bits of the exponent. -/
def exponentField (x : Double) : Nat := (x.magnitude >>> 52).toNat

/-- The bits of the significand. -/
def significandField (x : Double) : Nat := (x.magnitude &&& 0x000FFFFFFFFFFFFF).toNat

/-- The significand of a finite double, whose value is `significand * 2 ^ exponent`. -/
def significand (x : Double) : Nat :=
  if x.exponentField = 0 then x.significandField else significandCount + x.significandField

/-- The exponent of a finite double, whose value is `significand * 2 ^ exponent`. -/
def exponent (x : Double) : Int :=
  if x.exponentField = 0 then -1074 else (x.exponentField : Int) - 1075

/-- The significand of a finite double with its sign. -/
def whole (x : Double) : Int := if x.isNegative then -(x.significand : Int) else x.significand

/-- The value of a finite double without its sign, as a fraction. -/
def fraction (x : Double) : Nat × Nat := scaleFraction x.significand 1 x.exponent

/-! ### Doubles for other numbers -/

/-- The double nearest to `num / den * 2 ^ exponent`, with a sign. -/
def nearestScaled (negative : Bool) (num den : Nat) (exponent : Int) : Double :=
  ofMagnitude negative (nearestMagnitude num den exponent).toUInt64

/-- The double nearest to a fraction, with a sign. -/
def nearest (negative : Bool) (num den : Nat) : Double := nearestScaled negative num den 0

/-- The double nearest to a natural number. -/
def ofNat (n : Nat) : Double := nearest false n 1

/-- The double nearest to a whole number. -/
def ofInt (n : Int) : Double := nearest (n < 0) n.natAbs 1

/-- The double nearest to `coefficient * 10 ^ exponent`. -/
def ofDecimal (coefficient : Nat) (exponent : Int) : Double :=
  if 0 ≤ exponent then nearest false (coefficient * Nat.pow 10 exponent.toNat) 1
  else nearest false coefficient (Nat.pow 10 (-exponent).toNat)

instance : OfScientific Double where
  ofScientific coefficient isFraction places :=
    ofDecimal coefficient (if isFraction then -(places : Int) else places)

/-- The whole part of a finite double. -/
def truncate (x : Double) : Int :=
  let part := x.fraction.1 / x.fraction.2
  if x.isNegative then -(part : Int) else part

/-! ### Comparisons -/

/-- The position of a number among all numbers; both zeros stand in the middle. -/
def position (x : Double) : UInt64 :=
  if x.isNegative then 0x8000000000000000 - x.magnitude else 0x8000000000000000 + x.magnitude

/-- Whether both doubles are numbers and the first is less. -/
def less (a b : Double) : Bool := !a.isNaN && !b.isNaN && a.position < b.position

/-- Whether both doubles are numbers and the first is not greater. -/
def atMost (a b : Double) : Bool := !a.isNaN && !b.isNaN && a.position ≤ b.position

/-- Whether two doubles are the same number. -/
def equals (a b : Double) : Bool := !a.isNaN && !b.isNaN && a.position == b.position

instance : LT Double := ⟨fun a b => a.less b = true⟩

instance : LE Double := ⟨fun a b => a.atMost b = true⟩

instance (a b : Double) : Decidable (a < b) := inferInstanceAs (Decidable (a.less b = true))

instance (a b : Double) : Decidable (a ≤ b) := inferInstanceAs (Decidable (a.atMost b = true))

/-! ### Arithmetic -/

/-- The double with the opposite sign. -/
def neg (x : Double) : Double := ⟨x.bits ^^^ 0x8000000000000000⟩

/-- The double without its sign. -/
def abs (x : Double) : Double := ofMagnitude false x.magnitude

/-- An operation on two doubles, given what it does on numbers. -/
def onNumbers (op : Double → Double → Double) (a b : Double) : Double :=
  if a.isNaN then a.quiet else if b.isNaN then b.quiet else op a b

/-- The sum of two finite numbers.  The sum of a number and its opposite has no sign. -/
def addFinite (a b : Double) : Double :=
  let exponent := min a.exponent b.exponent
  let m := shift a.significand (a.exponent - exponent).toNat
  let n := shift b.significand (b.exponent - exponent).toNat
  if a.isNegative = b.isNegative then nearestScaled a.isNegative (m + n) 1 exponent
  else if n < m then nearestScaled a.isNegative (m - n) 1 exponent
  else nearestScaled (n ≠ m && b.isNegative) (n - m) 1 exponent

/-- The sum of two numbers. -/
def addNumbers (a b : Double) : Double :=
  if a.isInfinite then
    if b.isInfinite && a.isNegative != b.isNegative then invalid else a
  else if b.isInfinite then b
  else addFinite a b

/-- The product of two numbers. -/
def mulNumbers (a b : Double) : Double :=
  let negative := a.isNegative != b.isNegative
  if a.isInfinite || b.isInfinite then
    if a.isZero || b.isZero then invalid else infinity negative
  else nearestScaled negative (a.significand * b.significand) 1 (a.exponent + b.exponent)

/-- The quotient of two numbers. -/
def divNumbers (a b : Double) : Double :=
  let negative := a.isNegative != b.isNegative
  if a.isInfinite then if b.isInfinite then invalid else infinity negative
  else if b.isInfinite then ofMagnitude negative 0
  else if b.isZero then if a.isZero then invalid else infinity negative
  else nearestScaled negative a.significand b.significand (a.exponent - b.exponent)

/-- The sum. -/
def add (a b : Double) : Double := onNumbers addNumbers a b

/-- The difference. -/
def sub (a b : Double) : Double := onNumbers (fun a b => addNumbers a b.neg) a b

/-- The product. -/
def mul (a b : Double) : Double := onNumbers mulNumbers a b

/-- The quotient. -/
def div (a b : Double) : Double := onNumbers divNumbers a b

instance : Add Double := ⟨add⟩

instance : Sub Double := ⟨sub⟩

instance : Mul Double := ⟨mul⟩

instance : Div Double := ⟨div⟩

instance : Neg Double := ⟨neg⟩

/-- The square root of a positive finite number.  The significand is extended until the
whole part of its root has more places than a double; what is left out then only
matters for being there at all. -/
def sqrtPositive (x : Double) : Double :=
  let shift : Nat := if x.exponent % 2 = 0 then 112 else 113
  let extended := x.significand <<< shift
  let root := squareRoot extended
  let rest := if root * root = extended then 0 else 1
  nearestScaled false (2 * root + rest) 2 ((x.exponent - shift) / 2)

/-- The square root. -/
def sqrt (x : Double) : Double :=
  if x.isNaN then x.quiet
  else if x.isZero then x
  else if x.isNegative then invalid
  else if x.isInfinite then x
  else sqrtPositive x

/-- The greatest whole number that is at most a number. -/
def floor (x : Double) : Double :=
  if !x.isFinite || 0 ≤ x.exponent then x
  else
    let part := x.whole.fdiv (1 <<< (-x.exponent).toNat)
    nearest x.isNegative part.natAbs 1

/-- The power, as the platform computes it. -/
def pow (a b : Double) : Double :=
  ⟨((Float.ofBits a.bits).pow (Float.ofBits b.bits)).toBits⟩

end Double

end ProgramBreeding

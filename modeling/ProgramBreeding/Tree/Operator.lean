import ProgramBreeding.Number.Double

/-!
# Operators and literals

The leaves of the object language: its operators with their spelling, and the
constants a program can write down.
-/

namespace ProgramBreeding

/-- Arithmetic operators. -/
inductive BinaryOp where
  | add
  | sub
  | mul
  | div
  | floorDiv
  | mod
  | pow
  deriving DecidableEq, Repr

/-- The spelling of an arithmetic operator. -/
def BinaryOp.symbol : BinaryOp → String
  | .add => "+"
  | .sub => "-"
  | .mul => "*"
  | .div => "/"
  | .floorDiv => "//"
  | .mod => "%"
  | .pow => "**"

/-- Unary operators. -/
inductive UnaryOp where
  | neg
  | pos
  | not
  deriving DecidableEq, Repr

/-- Short-circuit operators. -/
inductive LogicOp where
  | and
  | or
  deriving DecidableEq, Repr

/-- The spelling of a short-circuit operator. -/
def LogicOp.symbol : LogicOp → String
  | .and => "and"
  | .or => "or"

/-- Comparison operators. -/
inductive CompareOp where
  | lt
  | gt
  | le
  | ge
  | eq
  | ne
  | mem
  | notMem
  deriving DecidableEq, Repr

/-- The spelling of a comparison operator. -/
def CompareOp.symbol : CompareOp → String
  | .lt => "<"
  | .gt => ">"
  | .le => "<="
  | .ge => ">="
  | .eq => "=="
  | .ne => "!="
  | .mem => "in"
  | .notMem => "not in"

/-- Constants that a program can write down. -/
inductive Literal where
  | none
  | bool (value : Bool)
  | int (value : Int64)
  | float (value : Double)
  | str (value : String)
  deriving DecidableEq

/-- Whether a constant counts as true in a condition. -/
def Literal.isTruthy : Literal → Bool
  | .none => false
  | .bool b => b
  | .int i => i != 0
  | .float x => !x.isZero
  | .str s => !s.isEmpty

/-- Whether a comprehension builds a list or a generator. -/
inductive ComprehensionKind where
  | list
  | generator
  deriving DecidableEq, Repr

end ProgramBreeding

import ProgramBreeding.Execution.State
import ProgramBreeding.Text.Search

/-!
# Comparing values

## Main definitions

* `equalWithin`, `equal` — equality of values.
* `orderWithin`, `order?` — their order, where it is defined.
* `sortValues` — a stable sort that fails on values without an order.
* `contains` — membership in a list or a text.
* `compareValues` — the comparison operators.

## Design notes

Lists may hold themselves, so both recursions count the levels they may still enter:
lists are compared 64 levels deep.  Below that nothing is equal and nothing is
ordered.
-/

namespace ProgramBreeding

/-- The number of levels that comparisons and conversions of values enter: the value
itself and 64 levels of lists. -/
def maxLevels : Nat := 65

/-- Equality of numbers; whole numbers and doubles are compared as doubles. -/
def Num.equal : Num → Num → Bool
  | .int a, .int b => a == b
  | a, b => a.toDouble.equals b.toDouble

/-- The order of doubles; none for a value that is not a number. -/
def compareDoubles (a b : Double) : Option Ordering :=
  if a < b then some .lt
  else if a.equals b then some .eq
  else if b < a then some .gt
  else none

/-- The order of numbers; whole numbers and doubles are compared as doubles. -/
def Num.order? : Num → Num → Option Ordering
  | .int a, .int b => some (compare a.toInt b.toInt)
  | a, b => compareDoubles a.toDouble b.toDouble

/-- Equality of values with a number of levels left. -/
def equalWithin (heap : Heap) : Nat → Value → Value → Bool
  | 0, _, _ => false
  | levels + 1, a, b =>
    match a, b with
    | .none, .none => true
    | .str a, .str b => a == b
    | .list a, .list b =>
      a == b ||
        ((heap.items a).size == (heap.items b).size &&
          ((heap.items a).toList.zip (heap.items b).toList).all fun pair =>
            equalWithin heap levels pair.1 pair.2)
    | .function a, .function b => a == b
    | .builtin a, .builtin b => a == b
    | a, b =>
      match a.number?, b.number? with
      | some a, some b => a.equal b
      | _, _ => false

/-- Equality of values. -/
def equal (heap : Heap) (a b : Value) : Bool := equalWithin heap maxLevels a b

/-- The order of values with a number of levels left.  Lists are ordered by their first
items that differ, else by their lengths. -/
def orderWithin (heap : Heap) : Nat → Value → Value → Option Ordering
  | 0, _, _ => none
  | levels + 1, a, b =>
    match a, b with
    | .str a, .str b => some (compare a b)
    | .list a, .list b =>
      match ((heap.items a).toList.zip (heap.items b).toList).find? fun pair =>
          !equalWithin heap levels pair.1 pair.2 with
      | some (x, y) => orderWithin heap levels x y
      | none => some (compare (heap.items a).size (heap.items b).size)
    | a, b =>
      match a.number?, b.number? with
      | some a, some b => a.order? b
      | _, _ => none

/-- The order of values, if they have one. -/
def order? (heap : Heap) (a b : Value) : Option Ordering := orderWithin heap maxLevels a b

/-- The order of values, as the operator `op` asks for it. -/
def orderFor (op : CompareOp) (heap : Heap) (a b : Value) : Except Fault Ordering :=
  match order? heap a b with
  | some found => .ok found
  | none => .error (.unordered op a.kind b.kind)

/-! ### Sorting -/

/-- Merges two sorted lists; of equal values those of the left list come first.
`merged` is reversed. -/
def mergeValues (heap : Heap) : Nat → List Value → List Value → List Value →
    Except Fault (List Value)
  | 0, merged, left, right => .ok (merged.reverse ++ left ++ right)
  | count + 1, merged, left, right =>
    match left, right with
    | [], right => .ok (merged.reverse ++ right)
    | left, [] => .ok (merged.reverse ++ left)
    | x :: left, y :: right =>
      match orderFor .lt heap y x with
      | .error fault => .error fault
      | .ok .lt => mergeValues heap count (y :: merged) (x :: left) right
      | .ok _ => mergeValues heap count (x :: merged) left (y :: right)

/-- Sorts a list by halving it at most `depth` times. -/
def sortWithin (heap : Heap) : Nat → List Value → Except Fault (List Value)
  | 0, items => .ok items
  | depth + 1, items =>
    if items.length ≤ 1 then .ok items
    else do
      let half := items.length / 2
      let left ← sortWithin heap depth (items.take half)
      let right ← sortWithin heap depth (items.drop half)
      mergeValues heap items.length [] left right

/-- The values in increasing order, equal ones in their old order. -/
def sortValues (heap : Heap) (items : List Value) : Except Fault (List Value) :=
  sortWithin heap items.length items

/-! ### Operators -/

/-- Whether a list holds a value, or a text another one. -/
def contains (heap : Heap) (container item : Value) : Except Fault Bool :=
  match container, item with
  | .list ref, item => .ok ((heap.items ref).any fun found => equal heap found item)
  | .str text, .str pattern => .ok (Text.contains text pattern)
  | .str _, item => .error (.notSearchableFor item.kind)
  | container, _ => .error (.notSearchable container.kind)

/-- The comparison operators. -/
def compareValues (heap : Heap) (op : CompareOp) (a b : Value) : Except Fault Bool :=
  match op with
  | .eq => .ok (equal heap a b)
  | .ne => .ok !(equal heap a b)
  | .mem => contains heap b a
  | .notMem => (contains heap b a).map (!·)
  | .lt => (orderFor op heap a b).map (· == .lt)
  | .gt => (orderFor op heap a b).map (· == .gt)
  | .le => (orderFor op heap a b).map (· != .gt)
  | .ge => (orderFor op heap a b).map (· != .lt)

end ProgramBreeding

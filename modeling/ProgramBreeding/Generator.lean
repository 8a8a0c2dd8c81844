import ProgramBreeding.Chance

/-!
# A generator

A reproducible source of random numbers: words from a shift register, and the draws that are made
from them.

## Main definitions

* `Generator` — the state of the register.
* `Generator.next` — the next word.
* `Generator.ofSeed` — the state for a seed.
* `Generator.below`, `Generator.chance`, `Generator.realBelow` — what is drawn from words.
* `Generator.randomSource` — the register is a source of random numbers.

## Design notes

A draw from a range refuses words that would make some numbers likelier than others.
A refusal is less likely than an acceptance, so the number of refusals is bounded by
`maxRefusals` without any effect in practice; after that many the next word counts.
-/

namespace ProgramBreeding.Chance

/-- The state of the source: four words. -/
structure Generator where
  s0 : UInt64
  s1 : UInt64
  s2 : UInt64
  s3 : UInt64
  deriving DecidableEq, Repr

/-- A word with its bits rotated to the left. -/
def rotateLeft (x : UInt64) (n : UInt64) : UInt64 := (x <<< n) ||| (x >>> (64 - n))

/-- The next word and the state after it. -/
def Generator.next (g : Generator) : UInt64 × Generator :=
  let result := rotateLeft (g.s0 + g.s3) 23 + g.s0
  let t := g.s1 <<< 17
  let s2 := g.s2 ^^^ g.s0
  let s3 := g.s3 ^^^ g.s1
  let s1 := g.s1 ^^^ s2
  let s0 := g.s0 ^^^ s3
  (result, ⟨s0, s1, s2 ^^^ t, rotateLeft s3 45⟩)

/-! ### Seeds -/

/-- The next state of the congruential sequence that spreads a seed. -/
def spread (state : UInt64) : UInt64 := state * 6364136223846793005 + 11634580027462260723

/-- The 32 bits that a state of that sequence yields. -/
def spreadBits (state : UInt64) : UInt64 :=
  let x := (((state >>> 18) ^^^ state) >>> 27) &&& 0xFFFFFFFF
  let turn := state >>> 59
  ((x >>> turn) ||| (x <<< ((32 - turn) &&& 31))) &&& 0xFFFFFFFF

/-- Two members of the sequence after a state, as one word, and the state after them. -/
def spreadWord (state : UInt64) : UInt64 × UInt64 :=
  let low := spread state
  let high := spread low
  (spreadBits low ||| (spreadBits high <<< 32), high)

/-- The state for a seed. -/
def Generator.ofSeed (seed : UInt64) : Generator :=
  let (s0, state) := spreadWord seed
  let (s1, state) := spreadWord state
  let (s2, state) := spreadWord state
  let (s3, _) := spreadWord state
  ⟨s0, s1, s2, s3⟩

/-! ### Draws -/

namespace Generator

/-- A random word. -/
def word : Draw Generator UInt64 := fun g => g.next

/-- The greatest number of words that one draw refuses. -/
def maxRefusals : Nat := 1000

/-- The low half of the last product that a draw from `size` numbers accepts: the
greatest multiple of `size` by a power of two that fits in a word, less one. -/
def acceptance (size : Nat) : Nat := (size <<< (63 - size.log2)) - 1

/-- The high half of the product of `size` and the first word whose low half is
accepted. -/
def belowWithin (size : Nat) : Nat → Draw Generator Nat
  | 0 => do return (← word).toNat * size / UInt64.size
  | refusals + 1 => do
    let product := (← word).toNat * size
    if product % UInt64.size ≤ acceptance size then return product / UInt64.size
    else belowWithin size refusals

/-- A natural number less than `size`, which is positive and fits in a word. -/
def below (size : Nat) : Draw Generator Nat := belowWithin size maxRefusals

/-- An event of the given probability; a sure one draws nothing. -/
def chance (probability : Double) : Draw Generator Bool := do
  if probability.equals 1.0 then return true
  else return ((← word).toNat : Int) < (probability * 18446744073709551616.0).truncate

/-- A double from the unit interval, one excluded. -/
def unit : Draw Generator Double := do
  return Double.nearest false ((← word).toNat / 4096) Number.significandCount

/-- A double less than `limit`, after at most so many refusals. -/
def realBelowWithin (limit : Double) : Nat → Draw Generator Double
  | 0 => do return (← unit) * limit
  | refusals + 1 => do
    let x := (← unit) * limit
    if x < limit then return x else realBelowWithin limit refusals

/-- A double between zero and `limit`, which is positive; the limit is excluded. -/
def realBelow (limit : Double) : Draw Generator Double := realBelowWithin limit maxRefusals

/-! ### Numbers of a range -/

/-- The high half of a word times a number is less than that number. -/
theorem highHalf_lt {size : Nat} (h : 0 < size) (word : UInt64) : word.toNat * size / UInt64.size < size := by
  refine Nat.div_lt_of_lt_mul ?_
  exact Nat.mul_lt_mul_of_pos_right word.toNat_lt_size h

/-- By induction on the words that may still be refused. -/
theorem belowWithin_lt {size : Nat} (h : 0 < size) : ∀ (refusals : Nat) (g : Generator),
    (belowWithin size refusals g).1 < size
  | 0, g => highHalf_lt h (word g).1
  | refusals + 1, g => by
    show ((if (word g).1.toNat * size % UInt64.size ≤ acceptance size
      then pure ((word g).1.toNat * size / UInt64.size)
      else belowWithin size refusals : Draw Generator Nat) (word g).2).1 < size
    split
    · exact highHalf_lt h (word g).1
    · exact belowWithin_lt h refusals (word g).2

/-- Some state yields a word next. -/
theorem exists_word_eq (w : UInt64) : ∃ g, (word g).1 = w := by
  refine ⟨⟨w, 1, 0, -w⟩, ?_⟩
  show rotateLeft (w + -w) 23 + w = w
  rw [UInt64.add_right_neg]
  exact UInt64.zero_add w

/-- What is left over of the product with the least word for a number is accepted. -/
theorem le_acceptance (size : Nat) : size - 1 ≤ acceptance size := by
  unfold acceptance
  rw [Nat.shiftLeft_eq]
  exact Nat.sub_le_sub_right (Nat.le_mul_of_pos_right _ (Nat.two_pow_pos _)) 1

/-- If the first word is accepted, its number is drawn. -/
theorem belowWithin_eq {size refusals : Nat} {g : Generator}
    (h : (word g).1.toNat * size % UInt64.size ≤ acceptance size) :
    (belowWithin size (refusals + 1) g).1 = (word g).1.toNat * size / UInt64.size := by
  show ((if (word g).1.toNat * size % UInt64.size ≤ acceptance size
    then pure ((word g).1.toNat * size / UInt64.size)
    else belowWithin size refusals : Draw Generator Nat) (word g).2).1 = _
  rw [if_pos h]
  rfl

/-- The least multiple of `size` that is not less than `n * i`. -/
theorem exists_mul_eq {size n i : Nat} (hsize : size ≤ n) (hi : i < size) :
    ∃ w rest, w < n ∧ rest < size ∧ w * size = n * i + rest := by
  have hsplit := Nat.div_add_mod' (n * i + (size - 1)) size
  have hmod := Nat.mod_lt (n * i + (size - 1)) (Nat.zero_lt_of_lt hi)
  refine ⟨(n * i + (size - 1)) / size, size - 1 - (n * i + (size - 1)) % size, ?_, by omega, by omega⟩
  refine Nat.div_lt_of_lt_mul ?_
  have := Nat.mul_le_mul_right n hi
  rw [Nat.succ_mul, Nat.mul_comm i] at this
  omega

/-- Each number of a range is drawn if its least word comes first. -/
theorem exists_below_eq {size i : Nat} (hsize : size ≤ UInt64.size) (hi : i < size) : ∃ g, (below size g).1 = i := by
  obtain ⟨w, rest, hw, hrest, hproduct⟩ := exists_mul_eq hsize hi
  obtain ⟨g, hg⟩ := exists_word_eq (UInt64.ofNat w)
  rw [← UInt64.toNat_ofNat_of_lt' hw, ← hg] at hproduct
  have hlt : rest < UInt64.size := Nat.lt_of_lt_of_le hrest hsize
  refine ⟨g, (belowWithin_eq ?_).trans ?_⟩
  · rw [hproduct, Nat.mul_add_mod, Nat.mod_eq_of_lt hlt]
    exact Nat.le_trans (Nat.le_sub_one_of_lt hrest) (le_acceptance size)
  · rw [hproduct, Nat.mul_add_div (by decide), Nat.div_eq_of_lt hlt, Nat.add_zero]

/-- The register is a source of random numbers. -/
instance randomSource : RandomSource Generator where
  ofSeed := ofSeed
  below := below
  chance := chance
  realBelow := realBelow
  below_lt h := belowWithin_lt h maxRefusals
  exists_below_eq := exists_below_eq

end Generator

end ProgramBreeding.Chance

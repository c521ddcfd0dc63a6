import WordIndex.RankMap

/-! # Results in order of rank -/
namespace WordIndex

/-! ## Rounding to double precision -/

namespace DoubleRounding

def precision : Nat := 53

/-- The integer nearest to a number that is not negative; a half goes to the even neighbour. -/
def nearestInteger (x : Rat) : Int :=
  let low := x.floor
  let part := x - low
  if part < 1 / 2 then low
  else if 1 / 2 < part then low + 1
  else if low % 2 = 0 then low
  else low + 1

/-- The exponent of the greatest power of two that is not above a positive number. -/
def binaryExponent (x : Rat) : Int :=
  let guess : Int := (x.num.natAbs.log2 : Int) - (x.den.log2 : Int)
  if (2 : Rat) ^ guess ≤ x then guess else guess - 1

/-- The value nearest to a number that is not negative among those with a significand of 53 bits;
between two of them, the one with the even significand. -/
def nearest (x : Rat) : Rat :=
  if x = 0 then 0
  else
    let unit : Rat := 2 ^ (binaryExponent x - (precision - 1 : Int))
    nearestInteger (x / unit) * unit

def halfUp (x : Rat) : Int := (x + 1 / 2).floor

end DoubleRounding

/-! ## Ranks that are shown -/

structure RankedResult where
  file : Nat
  rank : Nat
  occurrences : Nat
  displayRank : Nat
  deriving DecidableEq

structure RankedResults where
  total : Nat
  results : List RankedResult
  deriving DecidableEq

/-- The rank that is shown: a hundred for the highest one and the others in proportion, in double
precision arithmetic, and never below one. -/
def displayRank (rank highest : Nat) : Nat :=
  if highest = 0 then 100
  else
    let scaled := DoubleRounding.nearest (DoubleRounding.nearest rank * 100)
    let shown := DoubleRounding.halfUp
      (DoubleRounding.nearest (scaled / DoubleRounding.nearest highest))
    max 1 (min shown.toNat 100)

namespace RankMap

/-- Whether one entry stands before another one in the results: by falling rank, then by file. -/
def ranksBefore (x y : Nat × FileScore) : Bool :=
  decide (y.2.rank < x.2.rank ∨ x.2.rank = y.2.rank ∧ x.1 ≤ y.1)

def ranked (m : RankMap) : List (Nat × FileScore) := m.entries.mergeSort ranksBefore

def highest (m : RankMap) : Nat := (m.ranked.head?.map (·.2.rank)).getD 0

def results (m : RankMap) (skip limit : Nat) : RankedResults where
  total := m.size
  results := ((m.ranked.drop skip).take limit).map fun x =>
    ⟨x.1, x.2.rank, x.2.occurrences, displayRank x.2.rank m.highest⟩

end RankMap

end WordIndex

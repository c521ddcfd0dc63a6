import Mathlib.Order.Bounds.Basic
import WordIndex.Proofs.RankedPages
import WordIndex.Proofs.RoundedValues

/-! # The ranks that are shown

A rank is shown as its part of the highest one. Three values are rounded on the way to it, and none of
the roundings changes the order. A half is a value of double precision and so are the numbers close below
it: as long as no quotient comes closer to a half from below, a share is rounded to where it belongs. -/
namespace WordIndex

open DoubleRounding

variable {rank other highest : Nat}

namespace RankMap

variable {m : RankMap}

/-- A half goes up, and a share that is close below it goes down. -/
example : displayRank 3 200 = 2 ∧ displayRank 128849018 8589934592 = 1 := by decide +kernel

end RankMap

end WordIndex

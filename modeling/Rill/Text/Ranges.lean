/-!
# Tables of ranges

A set of numbers as an array of ranges, both ends included, in order and apart from each other.
-/

namespace Rill.Text

/-- Whether `n` lies in one of the ranges from `lo` up to `hi`, both indices of a sorted table. Each
step halves the distance, so `fuel` of its logarithm is enough. -/
def searchRanges (ranges : Array (Nat × Nat)) (n : Nat) : Nat → Nat → Nat → Bool
  | 0, _, _ => false
  | fuel + 1, lo, hi =>
    if lo < hi then
      let mid := (lo + hi) / 2
      match ranges[mid]? with
      | none => false
      | some (first, last) =>
        if n < first then searchRanges ranges n fuel lo mid
        else if last < n then searchRanges ranges n fuel (mid + 1) hi
        else true
    else false

/-- Whether `n` lies in one of the ranges of a sorted table. -/
def inRanges (ranges : Array (Nat × Nat)) (n : Nat) : Bool :=
  searchRanges ranges n (ranges.size + 1) 0 ranges.size

end Rill.Text

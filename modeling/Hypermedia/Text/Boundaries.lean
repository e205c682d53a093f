/-!
# Sets of characters by boundaries

A set of code points that falls into runs is given by the ascending list of the points
where membership changes: `#[48, 58]` is the set from 48 up to, but not including, 58. A
point is in the set when an odd number of boundaries are at most it, and binary search
finds that number (`countUpTo`).
-/

namespace Hypermedia.Text

/-- The number of boundaries at most `c` among those from `lo` up to `hi`, plus `lo`, when
the boundaries ascend: halve the range until it is empty. -/
def countUpTo (boundaries : Array Nat) (c : Nat) : Nat → Nat → Nat → Nat
  | 0, lo, _ => lo
  | fuel + 1, lo, hi =>
    if lo < hi then
      let middle := (lo + hi) / 2
      if (boundaries[middle]?.getD 0) ≤ c then countUpTo boundaries c fuel (middle + 1) hi
      else countUpTo boundaries c fuel lo middle
    else lo

/-- Is the code point in the set with these boundaries? -/
def inRuns (boundaries : Array Nat) (c : Nat) : Bool :=
  countUpTo boundaries c 32 0 boundaries.size % 2 == 1

end Hypermedia.Text

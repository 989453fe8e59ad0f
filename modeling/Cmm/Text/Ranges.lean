/-!
Sets of characters are given as increasing lists of closed intervals of code points.
-/

namespace Cmm.Text

/-- Membership in the union of an increasing list of closed intervals: the search ends at the
first interval that starts beyond the number. -/
def inRanges : List (Nat × Nat) → Nat → Bool
  | [], _ => false
  | (low, high) :: rest, n => if n < low then false else decide (n ≤ high) || inRanges rest n

end Cmm.Text

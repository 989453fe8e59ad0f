import Cmm.IndexRange

/-!
Looking at an element of a list by an index that may be negative: then it counts from the end.
-/

namespace Cmm

/-- The outcome of looking at an index: an element, nothing at or past the end, an index that
reaches back beyond the first element, or a number so far below that it is no index. -/
inductive Lookup (α : Type) where
  | element (a : α)
  | pastEnd
  | outOfRange
  | noIndex
  deriving DecidableEq, Repr

def lookup {α : Type} (xs : List α) (index : Int) : Lookup α :=
  let position := if 0 ≤ index then index else xs.length + index
  if index < minIndex then .noIndex
  else if position < 0 then .outOfRange
  else match xs[position.toNat]? with
    | some a => .element a
    | none => .pastEnd

example : lookup [1, 2, 3] (-1) = .element 3 := by decide
example : lookup [1, 2, 3] (-4) = .outOfRange := by decide
example : lookup [1, 2, 3] 3 = .pastEnd := by decide
example : lookup [1, 2, 3] (-2 ^ 63) = .outOfRange := by decide
example : lookup [1, 2, 3] (-2 ^ 63 - 1) = .noIndex := by decide
example : lookup [1, 2, 3] (2 ^ 64) = .pastEnd := by decide

end Cmm

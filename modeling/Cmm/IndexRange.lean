/-!
The numbers that can be an index or a count: signed words of 64 bits.
-/

namespace Cmm

def maxIndex : Int := 0x7fffffffffffffff

def minIndex : Int := -0x8000000000000000

def fitsIndex (n : Int) : Bool := minIndex ≤ n ∧ n ≤ maxIndex

def indexFault : String := "cannot fit 'int' into an index-sized integer"

example : fitsIndex 9223372036854775807 = true := by decide
example : fitsIndex 9223372036854775808 = false := by decide
example : fitsIndex (-9223372036854775808) = true := by decide
example : fitsIndex (-9223372036854775809) = false := by decide

end Cmm

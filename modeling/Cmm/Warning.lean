import Cmm.Position
import Cmm.Text.Quoted

/-!
Warnings: what was read in spite of a flaw, and how.
-/

namespace Cmm

inductive Warning where
  | numberTooLarge (position : Position)
  | badTabWidth (setting : String) (used : Int)
  deriving DecidableEq, Repr

def Warning.message : Warning → String
  | .numberTooLarge position =>
    locate "Integer literal too large; using max value" position
  | .badTabWidth setting used =>
    s!"Ignoring PYCMM_TAB_WIDTH={Text.quoted setting}: not an integer; using {used}"

end Cmm

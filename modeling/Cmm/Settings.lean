import Cmm.Parser.Basic
import Cmm.Text.Integer
import Cmm.Warning

/-!
The settings of a run, and how the tab width among them is chosen.
-/

namespace Cmm

def defaultTabWidth : Int := 4

/-- The width from which on an indentation finds no room in the memory of a common machine. -/
def commonRoom : Int := 0x1000000000

/-- What a caller says about the tab width: nothing, a width, or that there is none. -/
inductive TabChoice where
  | unset
  | width (n : Int)
  | none
  deriving DecidableEq, Repr

structure Settings where
  /-- The indentation of a block; if it is missing, only trees without blocks can be printed. -/
  tabWidth : Option Int
  limits : Limits
  /-- Warnings about the settings, which every run repeats. -/
  warnings : List Warning
  /-- The width from which on there is no room for an indentation. -/
  room : Int := commonRoom
  deriving DecidableEq, Repr

/-- The settings for a choice of the tab width; if nothing was chosen, the environment may name
one. -/
def Settings.choose (tab : TabChoice) (environment : Option String) (limits : Limits) : Settings :=
  match tab, environment with
  | .width n, _ => { tabWidth := some n, limits, warnings := [] }
  | .none, _ => { tabWidth := none, limits, warnings := [] }
  | .unset, none => { tabWidth := some defaultTabWidth, limits, warnings := [] }
  | .unset, some setting =>
    match Text.readInteger? setting with
    | some n => { tabWidth := some n, limits, warnings := [] }
    | none =>
      { tabWidth := some defaultTabWidth, limits
        warnings := [.badTabWidth setting defaultTabWidth] }

end Cmm

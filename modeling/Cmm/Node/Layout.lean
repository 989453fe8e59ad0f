import Cmm.IndexRange
import Cmm.Node.Basic

/-!
Layouts: printed text in pieces, before indentation is written out.

A layout is a list of texts, indentations and faults.  Writing it stops at the first fault, and
what was written up to there is kept.  `write` has room for every indentation whose width is an
index; `writeHeld` has room for those that are narrower than some width.
-/

namespace Cmm

inductive Role where
  | root
  | declaration
  | statement
  | type
  | expression
  deriving DecidableEq, Repr

inductive PrintFault where
  /-- A node of a class that cannot stand in this role. -/
  | misplaced (role : Role) (label : String)
  /-- A node without the slot that is looked at. -/
  | missingSlot (label slot : String)
  /-- An indentation whose width is no index. -/
  | indentation
  /-- An indentation in pairs of blanks with more characters than there are indices. -/
  | repetition
  /-- An indentation for which there is no room. -/
  | memory
  /-- A block where no tab width is set. -/
  | noTabWidth
  deriving DecidableEq, Repr

def Role.word : Role → String
  | .root => ""
  | .declaration => "declaration "
  | .statement => "statement "
  | .type => "type "
  | .expression => "expression "

def PrintFault.message : PrintFault → String
  | .misplaced role label => "cannot unparse " ++ role.word ++ label
  | .missingSlot label slot => s!"'{label}' object has no attribute '{slot}'"
  | .indentation => indexFault
  | .repetition => "repeated string is too long"
  | .memory => ""
  | .noTabWidth => "unsupported operand type(s) for +: 'int' and 'list'"

namespace Layout

inductive Item where
  | text (content : String)
  | indent (width : Int)
  | fault (fault : PrintFault)
  deriving DecidableEq, Repr

/-- Text that was written, and the fault that stopped the writing. -/
structure Printed where
  text : String
  fault : Option PrintFault
  deriving DecidableEq, Repr

/-- An indentation written out; a negative one is empty. -/
def spaces (width : Int) : String := String.ofList (List.replicate width.toNat ' ')

def writeTo (written : String) : List Item → Printed
  | [] => ⟨written, none⟩
  | .text content :: rest => writeTo (written ++ content) rest
  | .indent width :: rest =>
    if fitsIndex width then writeTo (written ++ spaces width) rest
    else ⟨written, some .indentation⟩
  | .fault f :: _ => ⟨written, some f⟩

def write (items : List Item) : Printed := writeTo "" items

theorem writeTo_append (written : String) (front back : List Item) :
    writeTo written (front ++ back) =
      if (writeTo written front).fault = none then writeTo (writeTo written front).text back
      else writeTo written front := by
  induction front generalizing written with
  | nil => simp [writeTo]
  | cons item rest ih =>
    cases item with
    | text content =>
      simp only [List.cons_append, writeTo]
      exact ih _
    | indent width =>
      simp only [List.cons_append, writeTo]
      split
      · exact ih _
      · simp
    | fault f => simp [writeTo]

/-! ## Room -/

/-- An item, if it is narrower than the room there is. -/
def held (room : Int) : Item → Item
  | .indent width =>
    if fitsIndex width ∧ room ≤ width then .fault .memory else .indent width
  | item => item

def writeHeld (room : Int) (items : List Item) : Printed := write (items.map (held room))

private theorem writeTo_held_of_fault_eq_none {room : Int} {written : String} {items : List Item}
    (h : (writeTo written (items.map (held room))).fault = none) :
    writeTo written (items.map (held room)) = writeTo written items := by
  induction items generalizing written with
  | nil => rfl
  | cons item rest ih =>
    cases item with
    | text content => exact ih h
    | fault f => rfl
    | indent width =>
      by_cases hroom : fitsIndex width ∧ room ≤ width
      · simp [held, hroom, writeTo] at h
      · simp only [List.map_cons, held, if_neg hroom, writeTo] at h ⊢
        split at h
        · rename_i hfits
          simp only [hfits, if_true]
          exact ih h
        · simp at h

theorem writeHeld_of_fault_eq_none {room : Int} {items : List Item}
    (h : (writeHeld room items).fault = none) : writeHeld room items = write items :=
  writeTo_held_of_fault_eq_none h

end Layout

end Cmm

import Cmm.Node.Layout

/-!
Two listings of a tree in preorder: the rows, one for each node and each empty slot, and the
outline, a text with one line for each node.
-/

namespace Cmm.Node

/-! ## Rows -/

/-- A node, or an empty slot, with its depth and the name of the slot where it stands. -/
structure Row where
  depth : Nat
  slot : String
  node : Node
  deriving Repr

def rows (depth : Nat) (slot : String) (n : Node) : List Row :=
  ⟨depth, slot, n⟩ ::
    n.slots.attach.flatMap fun ⟨(slot, child), _⟩ => rows (depth + 1) slot child
termination_by sizeOf n
decreasing_by exact sizeOf_lt_of_mem_slots ‹_›

theorem rows_eq (depth : Nat) (slot : String) (n : Node) :
    n.rows depth slot =
      ⟨depth, slot, n⟩ :: n.slots.flatMap fun (slot, child) => child.rows (depth + 1) slot := by
  rw [rows]
  rw [List.flatMap_subtype fun _ _ => rfl, List.unattach_attach]

/-! ## Outline -/

def detail? : Node → Option String
  | .name text _ => some text
  | .number value _ => some (toString value)
  | .string raw _ => some raw
  | .unary op _ _ => some ((op.map UnaryOp.spelling).getD "")
  | .binary op _ _ _ => some ((op.map BinaryOp.spelling).getD "")
  | .variableDecl _ _ size _ => if size = notStruct then none else some s!"size={size}"
  | _ => none

def caption (n : Node) : String :=
  match n.detail? with
  | some detail => s!"{n.label}({detail})"
  | none => n.label

def outlineLine (indent : Int) (row : Row) : String :=
  Layout.spaces (2 * (indent + row.depth)) ++ row.node.caption ++ "\n"

def nodeRows (n : Node) : List Row := (n.rows 0 "").filter fun row => !row.node.isAbsent

def outline (indent : Int) (n : Node) : String :=
  String.join (n.nodeRows.map (outlineLine indent))

def levelFault? (room level : Int) : Option PrintFault :=
  if !fitsIndex level then some .indentation
  else if maxIndex < 2 * level then some .repetition
  else if room ≤ 2 * level then some .memory
  else none

/-- The outline, unless one of its levels cannot be shown. -/
def outlineFrom (room indent : Int) (n : Node) : Except PrintFault String :=
  match n.nodeRows.findSome? fun row => levelFault? room (indent + row.depth) with
  | some fault => .error fault
  | none => .ok (n.outline indent)

end Cmm.Node

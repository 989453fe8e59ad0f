import Cmm.Node.Basic

/-!
Names, locations and expressions as they are read from tokens.

Every part has the position of one token: an operator, a dot or an assignment sign stands for its
node, and a call is placed where its callee is.  `toNode` gives the tree of a part.
-/

namespace Cmm

structure Name where
  text : String
  position : Position
  deriving DecidableEq, Repr

inductive Loc where
  | name (id : Name)
  | field (loc : Loc) (id : Name) (position : Position)
  deriving DecidableEq, Repr

inductive Expr where
  | number (value : Int) (position : Position)
  | string (raw : String) (position : Position)
  | truth (value : Bool) (position : Position)
  | loc (loc : Loc)
  | assign (lhs : Loc) (rhs : Expr) (position : Position)
  | call (callee : Name) (args : List Expr) (argsPosition : Position)
  | unary (op : UnaryOp) (operand : Expr) (position : Position)
  | binary (op : BinaryOp) (left right : Expr) (position : Position)
  deriving Repr

/-- An assignment, which is a statement or an expression. -/
structure Assignment where
  lhs : Loc
  rhs : Expr
  position : Position
  deriving Repr

structure Call where
  callee : Name
  args : List Expr
  argsPosition : Position
  deriving Repr

def Assignment.toExpr (a : Assignment) : Expr := .assign a.lhs a.rhs a.position

def Call.toExpr (c : Call) : Expr := .call c.callee c.args c.argsPosition

/-! ## Height -/

def Loc.height : Loc → Nat
  | .name _ => 1
  | .field loc _ _ => 1 + loc.height

mutual

def Expr.height : Expr → Nat
  | .number .. | .string .. | .truth .. => 1
  | .loc l => l.height
  | .assign lhs rhs _ => 1 + max lhs.height rhs.height
  | .call _ args _ => 1 + max 1 (Expr.greatestHeight args)
  | .unary _ operand _ => 1 + operand.height
  | .binary _ left right _ => 1 + max left.height right.height

def Expr.greatestHeight : List Expr → Nat
  | [] => 0
  | e :: rest => max e.height (Expr.greatestHeight rest)

end

theorem Loc.one_le_height (l : Loc) : 1 ≤ l.height := by
  cases l <;> simp [Loc.height]

theorem Expr.one_le_height (e : Expr) : 1 ≤ e.height := by
  cases e <;> simp [Expr.height, Loc.one_le_height]

/-! ## Trees -/

def Name.toNode (id : Name) : Node := .name id.text id.position

def Loc.toNode : Loc → Node
  | .name id => id.toNode
  | .field loc id p => .dot loc.toNode id.toNode p

mutual

def Expr.toNode : Expr → Node
  | .number value p => .number value p
  | .string raw p => .string raw p
  | .truth value p => .truth value p
  | .loc l => l.toNode
  | .assign lhs rhs p => .assign lhs.toNode rhs.toNode p
  | .call callee args p =>
    .call callee.toNode (.list .expressions (Expr.toNodes args) p) callee.position
  | .unary op operand p => .unary (some op) operand.toNode p
  | .binary op left right p => .binary (some op) left.toNode right.toNode p

def Expr.toNodes : List Expr → List Node
  | [] => []
  | e :: rest => e.toNode :: Expr.toNodes rest

end

theorem Expr.toNodes_eq_map (es : List Expr) : toNodes es = es.map toNode := by
  induction es with
  | nil => rfl
  | cons e rest ih => rw [toNodes, ih, List.map_cons]

def Assignment.toNode (a : Assignment) : Node := a.toExpr.toNode

def Call.toNode (c : Call) : Node := c.toExpr.toNode

/-! ## Heights agree -/

theorem Loc.height_toNode : ∀ l : Loc, l.toNode.height = l.height
  | .name _ => by simp [Loc.toNode, Name.toNode, Node.height, Loc.height]
  | .field loc _ _ => by
    have ih := Loc.height_toNode loc
    have := loc.one_le_height
    simp only [Loc.toNode, Name.toNode, Node.height, Loc.height, ih]
    omega

mutual

theorem Expr.height_toNode : ∀ e : Expr, e.toNode.height = e.height
  | .number .. => by simp [Expr.toNode, Node.height, Expr.height]
  | .string .. => by simp [Expr.toNode, Node.height, Expr.height]
  | .truth .. => by simp [Expr.toNode, Node.height, Expr.height]
  | .loc l => by simp [Expr.toNode, Expr.height, Loc.height_toNode]
  | .assign lhs rhs _ => by
    simp [Expr.toNode, Node.height, Expr.height, Loc.height_toNode, Expr.height_toNode rhs]
  | .call callee args _ => by
    simp [Expr.toNode, Name.toNode, Node.height, Expr.height,
      Expr.greatestHeight_toNodes args]
  | .unary _ operand _ => by
    simp [Expr.toNode, Node.height, Expr.height, Expr.height_toNode operand]
  | .binary _ left right _ => by
    simp [Expr.toNode, Node.height, Expr.height, Expr.height_toNode left,
      Expr.height_toNode right]

theorem Expr.greatestHeight_toNodes :
    ∀ es : List Expr, Node.greatestHeight (Expr.toNodes es) = Expr.greatestHeight es
  | [] => by simp [Expr.toNodes, Node.greatestHeight, Expr.greatestHeight]
  | e :: rest => by
    simp [Expr.toNodes, Node.greatestHeight, Expr.greatestHeight, Expr.height_toNode e,
      Expr.greatestHeight_toNodes rest]

end

end Cmm

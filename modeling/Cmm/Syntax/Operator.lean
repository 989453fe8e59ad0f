import Cmm.Token.Kind

/-!
The operators of expressions and the primitive types, with their spellings and the tokens that
stand for them.
-/

namespace Cmm

inductive UnaryOp where
  | minus
  | not
  deriving DecidableEq, Repr

inductive BinaryOp where
  | plus
  | minus
  | times
  | divide
  | and
  | or
  | equals
  | notEquals
  | less
  | greater
  | lessEq
  | greaterEq
  deriving DecidableEq, Repr

inductive Primitive where
  | int
  | bool
  | void
  deriving DecidableEq, Repr

namespace UnaryOp

def all : List UnaryOp := [.minus, .not]

def symbol : UnaryOp → Symbol
  | .minus => .minus
  | .not => .not

def spelling (op : UnaryOp) : String := op.symbol.spelling

def ofKind? : Kind → Option UnaryOp
  | .symbol .minus => some .minus
  | .symbol .not => some .not
  | _ => none

theorem ofKind?_symbol (op : UnaryOp) : ofKind? (.symbol op.symbol) = some op := by
  cases op <;> rfl

theorem eq_symbol_of_ofKind? {kind : Kind} {op : UnaryOp} (h : ofKind? kind = some op) :
    kind = .symbol op.symbol := by
  unfold ofKind? at h
  split at h <;> cases h <;> rfl

end UnaryOp

namespace BinaryOp

def all : List BinaryOp :=
  [.plus, .minus, .times, .divide, .and, .or, .equals, .notEquals, .less, .greater, .lessEq,
    .greaterEq]

def symbol : BinaryOp → Symbol
  | .plus => .plus
  | .minus => .minus
  | .times => .times
  | .divide => .divide
  | .and => .and
  | .or => .or
  | .equals => .equals
  | .notEquals => .notEquals
  | .less => .less
  | .greater => .greater
  | .lessEq => .lessEq
  | .greaterEq => .greaterEq

def spelling (op : BinaryOp) : String := op.symbol.spelling

/-- How tightly an operator binds; all operators associate to the left. -/
def precedence : BinaryOp → Int
  | .or => 1
  | .and => 2
  | .equals | .notEquals => 3
  | .less | .greater | .lessEq | .greaterEq => 4
  | .plus | .minus => 5
  | .times | .divide => 6

def ofKind? : Kind → Option BinaryOp
  | .symbol .plus => some .plus
  | .symbol .minus => some .minus
  | .symbol .times => some .times
  | .symbol .divide => some .divide
  | .symbol .and => some .and
  | .symbol .or => some .or
  | .symbol .equals => some .equals
  | .symbol .notEquals => some .notEquals
  | .symbol .less => some .less
  | .symbol .greater => some .greater
  | .symbol .lessEq => some .lessEq
  | .symbol .greaterEq => some .greaterEq
  | _ => none

theorem ofKind?_symbol (op : BinaryOp) : ofKind? (.symbol op.symbol) = some op := by
  cases op <;> rfl

theorem eq_symbol_of_ofKind? {kind : Kind} {op : BinaryOp} (h : ofKind? kind = some op) :
    kind = .symbol op.symbol := by
  unfold ofKind? at h
  split at h <;> cases h <;> rfl

end BinaryOp

namespace Primitive

def all : List Primitive := [.int, .bool, .void]

def keyword : Primitive → Keyword
  | .int => .int
  | .bool => .bool
  | .void => .void

def spelling (type : Primitive) : String := type.keyword.spelling

def ofKind? : Kind → Option Primitive
  | .keyword .int => some .int
  | .keyword .bool => some .bool
  | .keyword .void => some .void
  | _ => none

theorem ofKind?_keyword (type : Primitive) : ofKind? (.keyword type.keyword) = some type := by
  cases type <;> rfl

theorem eq_keyword_of_ofKind? {kind : Kind} {type : Primitive} (h : ofKind? kind = some type) :
    kind = .keyword type.keyword := by
  unfold ofKind? at h
  split at h <;> cases h <;> rfl

end Primitive

end Cmm

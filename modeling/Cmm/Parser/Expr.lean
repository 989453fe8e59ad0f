import Cmm.Parser.Basic
import Cmm.Syntax.Expr

/-!
Reading expressions, by precedence climbing.

All binary operators associate to the left; a unary operator binds tighter than any of them.  An
assignment may stand wherever an operand may, and its right side goes on as far as it can.  Every
call of `binary`, and every operand of a unary operator, is a level of nesting.  The height limit
is checked wherever an expression is built from others.
-/

namespace Cmm.Parser

/-! ## Names and locations -/

def name (message : String) : Parser Name := do
  let t ← current
  match t.lexeme with
  | .name text =>
    advance
    return ⟨text, t.position⟩
  | _ => fail message

def fields (limits : Limits) : Nat → Loc → Parser Loc
  | 0, _ => exhausted
  | steps + 1, loc => do
    let dot ← current
    if ← accept (.symbol .dot) then
      let id ← name "Expected field name after '.'"
      let longer := Loc.field loc id dot.position
      checkHeight limits longer.height dot
      fields limits steps longer
    else
      return loc

def location (limits : Limits) : Parser Loc := do
  let id ← name "Expected identifier"
  measured fun steps => fields limits steps (.name id)

/-! ## Expressions -/

mutual

/-- An expression whose operators have at least a given precedence, those in parentheses aside. -/
def binaryIn (limits : Limits) : Nat → Int → Parser Expr
  | 0, _ => exhausted
  | steps + 1, minimum => nested limits do
    let left ← unaryIn limits steps
    operatorsIn limits steps minimum left

def operatorsIn (limits : Limits) : Nat → Int → Expr → Parser Expr
  | 0, _, _ => exhausted
  | steps + 1, minimum, left => do
    let t ← current
    match BinaryOp.ofKind? t.kind with
    | none => return left
    | some op =>
      if op.precedence < minimum then
        return left
      else
        advance
        let right ← binaryIn limits steps (op.precedence + 1)
        let whole := Expr.binary op left right t.position
        checkHeight limits whole.height t
        operatorsIn limits steps minimum whole

def unaryIn (limits : Limits) : Nat → Parser Expr
  | 0 => exhausted
  | steps + 1 => do
    let t ← current
    match UnaryOp.ofKind? t.kind with
    | none => primaryIn limits steps
    | some op =>
      advance
      let operand ← nested limits (unaryIn limits steps)
      let whole := Expr.unary op operand t.position
      checkHeight limits whole.height t
      return whole

def primaryIn (limits : Limits) : Nat → Parser Expr
  | 0 => exhausted
  | steps + 1 => do
    let t ← current
    match t.lexeme with
    | .number value =>
      advance
      return .number value t.position
    | .string raw =>
      advance
      return .string raw t.position
    | .keyword .trueWord _ =>
      advance
      return .truth true t.position
    | .keyword .falseWord _ =>
      advance
      return .truth false t.position
    | .symbol .leftParen _ =>
      advance
      let e ← binaryIn limits steps 1
      let _ ← expect (.symbol .rightParen) "Expected ')'"
      return e
    | .name _ =>
      if (← get).kindAhead? 1 = some (.symbol .leftParen) then
        return (← callIn limits steps).toExpr
      else
        let loc ← location limits
        if ← at? (.symbol .assign) then
          return (← assignmentIn limits steps loc).toExpr
        else
          return .loc loc
    | _ => fail "Expected expression"

def assignmentIn (limits : Limits) : Nat → Loc → Parser Assignment
  | 0, _ => exhausted
  | steps + 1, lhs => do
    let sign ← expect (.symbol .assign) "Expected '='"
    let rhs ← binaryIn limits steps 1
    let whole : Assignment := ⟨lhs, rhs, sign.position⟩
    checkHeight limits whole.toExpr.height sign
    return whole

def callIn (limits : Limits) : Nat → Parser Call
  | 0 => exhausted
  | steps + 1 => do
    let callee ← name "Expected function name"
    let paren ← expect (.symbol .leftParen) "Expected '(' after function name"
    let args ← if ← at? (.symbol .rightParen) then pure [] else argumentsIn limits steps
    let _ ← expect (.symbol .rightParen) "Expected ')' after call"
    let whole : Call := ⟨callee, args, paren.position⟩
    checkHeight limits whole.toExpr.height paren
    return whole

def argumentsIn (limits : Limits) : Nat → Parser (List Expr)
  | 0 => exhausted
  | steps + 1 => do
    let first ← binaryIn limits steps 1
    if ← accept (.symbol .comma) then
      return first :: (← argumentsIn limits steps)
    else
      return [first]

end

def binary (limits : Limits) (minimum : Int) : Parser Expr :=
  measured fun steps => binaryIn limits steps minimum

def expression (limits : Limits) : Parser Expr := binary limits 1

def unary (limits : Limits) : Parser Expr := measured (unaryIn limits)

def primary (limits : Limits) : Parser Expr := measured (primaryIn limits)

def assignment (limits : Limits) (lhs : Loc) : Parser Assignment :=
  measured fun steps => assignmentIn limits steps lhs

def call (limits : Limits) : Parser Call := measured (callIn limits)

end Cmm.Parser

import Cmm.Parser.Entry

/-!
How many calls of the reading routines are open at once.

The routines for declarations, blocks, statements and expressions call each other, and each call
that is open takes up a frame of the interpreter that runs them.  Here they are run with a count of
the frames.  Turns of a loop take up no frame of their own; neither do the helpers, which call
nothing that is counted and so need a fixed number of frames more.
-/

namespace Cmm

/-- A parser that tells, with the way it ends, how many calls are open at most. -/
def Counted (α : Type) := Cursor → EStateM.Result SyntaxError Cursor α × Nat

namespace Counted

variable {α β : Type}

instance : Monad Counted where
  pure a c := (.ok a c, 0)
  bind p f c := match p c with
    | (.ok a d, n) => ((f a d).1, max n (f a d).2)
    | (.error e d, n) => (.error e d, n)

instance : MonadLift Parser Counted where
  monadLift p c := (p c, 0)

def call (p : Counted α) : Counted α := fun c => ((p c).1, (p c).2 + 1)

def nested (limits : Limits) (p : Counted α) : Counted α := do
  Parser.enter limits
  fun c => match p c with
    | (.ok a c, n) => (.ok a (Parser.leave c), n)
    | (.error e c, n) => (.error e (Parser.leave c), n)

def measured (p : Nat → Counted α) : Counted α := fun c => p (4 * (c.after.length + 1) + 8) c

open Cmm.Parser

/-! ## Expressions -/

mutual

def binaryIn (limits : Limits) : Nat → Int → Counted Expr
  | 0, _ => Parser.exhausted
  | steps + 1, minimum => call <| nested limits do
    let left ← unaryIn limits steps
    operatorsIn limits steps minimum left

def operatorsIn (limits : Limits) : Nat → Int → Expr → Counted Expr
  | 0, _, _ => Parser.exhausted
  | steps + 1, minimum, left => do
    let t ← current
    match BinaryOp.ofKind? t.kind with
    | none => return left
    | some op =>
      if op.precedence < minimum then
        return left
      else
        advance
        let right ← binaryIn limits steps (op.precedence + 1)
        let whole := Expr.binary op left right t.position
        checkHeight limits whole.height t
        operatorsIn limits steps minimum whole

def unaryIn (limits : Limits) : Nat → Counted Expr
  | 0 => Parser.exhausted
  | steps + 1 => call do
    let t ← current
    match UnaryOp.ofKind? t.kind with
    | none => primaryIn limits steps
    | some op =>
      advance
      let operand ← nested limits (unaryIn limits steps)
      let whole := Expr.unary op operand t.position
      checkHeight limits whole.height t
      return whole

def primaryIn (limits : Limits) : Nat → Counted Expr
  | 0 => Parser.exhausted
  | steps + 1 => call do
    let t ← current
    match t.lexeme with
    | .number value =>
      advance
      return .number value t.position
    | .string raw =>
      advance
      return .string raw t.position
    | .keyword .trueWord _ =>
      advance
      return .truth true t.position
    | .keyword .falseWord _ =>
      advance
      return .truth false t.position
    | .symbol .leftParen _ =>
      advance
      let e ← binaryIn limits steps 1
      let _ ← expect (.symbol .rightParen) "Expected ')'"
      return e
    | .name _ =>
      if (← (get : Parser Cursor)).kindAhead? 1 = some (.symbol .leftParen) then
        return (← callIn limits steps).toExpr
      else
        let loc ← location limits
        if ← at? (.symbol .assign) then
          return (← assignmentIn limits steps loc).toExpr
        else
          return .loc loc
    | _ => Parser.fail "Expected expression"

def assignmentIn (limits : Limits) : Nat → Loc → Counted Assignment
  | 0, _ => Parser.exhausted
  | steps + 1, lhs => call do
    let sign ← expect (.symbol .assign) "Expected '='"
    let rhs ← binaryIn limits steps 1
    let whole : Assignment := ⟨lhs, rhs, sign.position⟩
    checkHeight limits whole.toExpr.height sign
    return whole

def callIn (limits : Limits) : Nat → Counted Call
  | 0 => Parser.exhausted
  | steps + 1 => call do
    let callee ← name "Expected function name"
    let paren ← expect (.symbol .leftParen) "Expected '(' after function name"
    let args ← if ← at? (.symbol .rightParen) then pure [] else argumentsIn limits steps
    let _ ← expect (.symbol .rightParen) "Expected ')' after call"
    let whole : Call := ⟨callee, args, paren.position⟩
    checkHeight limits whole.toExpr.height paren
    return whole

def argumentsIn (limits : Limits) : Nat → Counted (List Expr)
  | 0 => Parser.exhausted
  | steps + 1 => do
    let first ← binaryIn limits steps 1
    if ← accept (.symbol .comma) then
      return first :: (← argumentsIn limits steps)
    else
      return [first]

end

def expression (limits : Limits) : Counted Expr :=
  call (measured fun steps => binaryIn limits steps 1)

/-! ## Statements and blocks -/

def condition (limits : Limits) (keyword : String) : Counted Expr := call do
  let _ ← expect (.symbol .leftParen) (leftParenAfter keyword)
  let e ← expression limits
  let _ ← expect (.symbol .rightParen) (rightParenAfter keyword)
  return e

def nameStatement (limits : Limits) : Counted Stmt := do
  let p := (← (current : Parser Token)).position
  if (← (get : Parser Cursor)).kindAhead? 1 = some (.symbol .leftParen) then
    let c ← measured (callIn limits)
    semicolon "Expected ';' after call"
    return .call c p
  else
    let loc ← location limits
    if ← at? (.symbol .assign) then
      let a ← measured fun steps => assignmentIn limits steps loc
      semicolon "Expected ';' after assignment"
      return .assign a p
    else if ← accept (.symbol .plusPlus) then
      semicolon "Expected ';' after '++'"
      return .increment loc p
    else if ← accept (.symbol .minusMinus) then
      semicolon "Expected ';' after '--'"
      return .decrement loc p
    else
      Parser.fail "Expected '=', '++' or '--' after location"

mutual

def blockIn (limits : Limits) : Nat → Counted Block
  | 0 => Parser.exhausted
  | steps + 1 => call do
    let _ ← expect (.symbol .leftCurly) "Expected '\x7b'"
    nested limits do
      let decls ← variableDecls
      let p := (← (current : Parser Token)).position
      let stmts ← statementsIn limits steps
      let _ ← expect (.symbol .rightCurly) "Expected '\x7d'"
      return .mk decls stmts p

def statementsIn (limits : Limits) : Nat → Counted (List Stmt)
  | 0 => Parser.exhausted
  | steps + 1 => do
    if ← at? (.symbol .rightCurly) then
      return []
    else
      let first ← statementIn limits steps
      return first :: (← statementsIn limits steps)

def statementIn (limits : Limits) : Nat → Counted Stmt
  | 0 => Parser.exhausted
  | steps + 1 => call do
    let t ← current
    let p := t.position
    match t.kind with
    | .keyword .int | .keyword .bool | .keyword .void | .keyword .struct =>
      Parser.fail "Declarations must precede statements"
    | .keyword .cin =>
      advance
      let _ ← expect (.symbol .read) "Expected '>>' after cin"
      let loc ← location limits
      semicolon "Expected ';' after input statement"
      return .read loc p
    | .keyword .cout =>
      advance
      let _ ← expect (.symbol .write) "Expected '<<' after cout"
      let e ← expression limits
      semicolon "Expected ';' after output statement"
      return .write e p
    | .keyword .ifWord =>
      advance
      let c ← condition limits "if"
      let thenBlock ← blockIn limits steps
      if ← accept (.keyword .elseWord) then
        return .ifElse c thenBlock (← blockIn limits steps) p
      else
        return .ifThen c thenBlock p
    | .keyword .whileWord =>
      advance
      let c ← condition limits "while"
      return .whileLoop c (← blockIn limits steps) p
    | .keyword .repeatWord =>
      advance
      let c ← condition limits "repeat"
      return .repeatLoop c (← blockIn limits steps) p
    | .keyword .returnWord =>
      advance
      if ← accept (.symbol .semicolon) then
        return .returnValue none p
      else
        let e ← expression limits
        semicolon "Expected ';' after return"
        return .returnValue (some e) p
    | .name => nameStatement limits
    | _ => Parser.fail "Expected statement"

end

/-! ## Declarations -/

def body (limits : Limits) : Counted Body := call do
  let p := (← (current : Parser Token)).position
  return ⟨← measured (blockIn limits), p⟩

def primitiveDeclaration (limits : Limits) : Counted Decl := do
  let p := (← (current : Parser Token)).position
  let type ← primitive
  let id ← name "Expected identifier"
  if ← at? (.symbol .leftParen) then
    let params ← formals
    return .functionDecl ⟨type, id, params, ← body limits, p⟩
  else
    semicolon "Expected ';' or '(' after identifier"
    return .variableDecl ⟨.primitive type, id, p⟩

def declaration (limits : Limits) : Counted Decl := call do
  if ← at? (.keyword .struct) then
    if (← (get : Parser Cursor)).kindAhead? 2 = some (.symbol .leftCurly) then
      return .structDecl (← structDecl)
    else
      return .variableDecl (← variableDecl)
  else if ← atPrimitive then
    primitiveDeclaration limits
  else
    Parser.fail "Expected declaration"

def declarationsIn (limits : Limits) : Nat → Counted (List Decl)
  | 0 => Parser.exhausted
  | steps + 1 => do
    if ← at? .endOfInput then
      return []
    else
      let first ← declaration limits
      return first :: (← declarationsIn limits steps)

def program (limits : Limits) : Counted Program := call do
  let p := (← (current : Parser Token)).position
  return ⟨← measured (declarationsIn limits), p⟩

end Counted

/-! ## Parts of a program -/

/-- Reads a part with a count of the calls; what has no calls to count is read as it is. -/
def Entry.counted (limits : Limits) : Entry → Counted (List Node)
  | .program => return [(← Counted.program limits).toNode]
  | .declaration => return [(← Counted.declaration limits).toNode]
  | .body => return [(← Counted.body limits).toNode]
  | .block => do
    let block ← Counted.measured (Counted.blockIn limits)
    return [block.declsNode, block.stmtsNode]
  | .condition keyword => return [(← Counted.condition limits keyword).toNode]
  | .statement => return [(← Counted.measured (Counted.statementIn limits)).toNode]
  | .expression => return [(← Counted.expression limits).toNode]
  | .binary minimum =>
    return [(← Counted.measured fun steps => Counted.binaryIn limits steps minimum).toNode]
  | .unary => return [(← Counted.measured (Counted.unaryIn limits)).toNode]
  | .primary => return [(← Counted.measured (Counted.primaryIn limits)).toNode]
  | .call => return [(← Counted.measured (Counted.callIn limits)).toNode]
  | .assignment => do
    let lhs ← Parser.location limits
    return [(← Counted.measured fun steps => Counted.assignmentIn limits steps lhs).toNode]
  | .assignmentTo lhs =>
    return [(← Counted.measured fun steps => Counted.assignmentIn limits steps lhs).toNode]
  | entry => entry.parse limits

/-- Reads a part where so many calls may be open at once; nothing comes of it if there were more. -/
def Entry.parseWithin (frames : Nat) (limits : Limits) (entry : Entry) (c : Cursor) :
    Option (EStateM.Result SyntaxError Cursor (List Node)) :=
  let (result, calls) := entry.counted limits c
  if calls ≤ frames then some result else none

end Cmm

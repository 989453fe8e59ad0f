import Cmm.Parser.Variable

/-!
Reading statements and blocks.

In a block all declarations come before all statements.  A block is a level of nesting.
-/

namespace Cmm.Parser

def leftParenAfter (keyword : String) : String := s!"Expected '(' after {keyword}"

def rightParenAfter (keyword : String) : String := s!"Expected ')' after {keyword} condition"

def condition (limits : Limits) (keyword : String) : Parser Expr := do
  let _ ← expect (.symbol .leftParen) (leftParenAfter keyword)
  let e ← expression limits
  let _ ← expect (.symbol .rightParen) (rightParenAfter keyword)
  return e

def nameStatement (limits : Limits) : Parser Stmt := do
  let p := (← current).position
  if (← get).kindAhead? 1 = some (.symbol .leftParen) then
    let c ← call limits
    semicolon "Expected ';' after call"
    return .call c p
  else
    let loc ← location limits
    if ← at? (.symbol .assign) then
      let a ← assignment limits loc
      semicolon "Expected ';' after assignment"
      return .assign a p
    else if ← accept (.symbol .plusPlus) then
      semicolon "Expected ';' after '++'"
      return .increment loc p
    else if ← accept (.symbol .minusMinus) then
      semicolon "Expected ';' after '--'"
      return .decrement loc p
    else
      fail "Expected '=', '++' or '--' after location"

mutual

def blockIn (limits : Limits) : Nat → Parser Block
  | 0 => exhausted
  | steps + 1 => do
    let _ ← expect (.symbol .leftCurly) "Expected '\x7b'"
    nested limits do
      let decls ← variableDecls
      let p := (← current).position
      let stmts ← statementsIn limits steps
      let _ ← expect (.symbol .rightCurly) "Expected '\x7d'"
      return .mk decls stmts p

def statementsIn (limits : Limits) : Nat → Parser (List Stmt)
  | 0 => exhausted
  | steps + 1 => do
    if ← at? (.symbol .rightCurly) then
      return []
    else
      let first ← statementIn limits steps
      return first :: (← statementsIn limits steps)

def statementIn (limits : Limits) : Nat → Parser Stmt
  | 0 => exhausted
  | steps + 1 => do
    let t ← current
    let p := t.position
    match t.kind with
    | .keyword .int | .keyword .bool | .keyword .void | .keyword .struct =>
      fail "Declarations must precede statements"
    | .keyword .cin =>
      advance
      let _ ← expect (.symbol .read) "Expected '>>' after cin"
      let loc ← location limits
      semicolon "Expected ';' after input statement"
      return .read loc p
    | .keyword .cout =>
      advance
      let _ ← expect (.symbol .write) "Expected '<<' after cout"
      let e ← expression limits
      semicolon "Expected ';' after output statement"
      return .write e p
    | .keyword .ifWord =>
      advance
      let c ← condition limits "if"
      let thenBlock ← blockIn limits steps
      if ← accept (.keyword .elseWord) then
        return .ifElse c thenBlock (← blockIn limits steps) p
      else
        return .ifThen c thenBlock p
    | .keyword .whileWord =>
      advance
      let c ← condition limits "while"
      return .whileLoop c (← blockIn limits steps) p
    | .keyword .repeatWord =>
      advance
      let c ← condition limits "repeat"
      return .repeatLoop c (← blockIn limits steps) p
    | .keyword .returnWord =>
      advance
      if ← accept (.symbol .semicolon) then
        return .returnValue none p
      else
        let e ← expression limits
        semicolon "Expected ';' after return"
        return .returnValue (some e) p
    | .name => nameStatement limits
    | _ => fail "Expected statement"

end

def block (limits : Limits) : Parser Block := measured (blockIn limits)

def statement (limits : Limits) : Parser Stmt := measured (statementIn limits)

end Cmm.Parser

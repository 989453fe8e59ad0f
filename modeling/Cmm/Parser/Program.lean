import Cmm.Parser.Stmt

/-!
Reading functions, declarations and whole programs.
-/

namespace Cmm.Parser

def body (limits : Limits) : Parser Body := do
  let p := (← current).position
  return ⟨← block limits, p⟩

def primitiveDeclaration (limits : Limits) : Parser Decl := do
  let p := (← current).position
  let type ← primitive
  let id ← name "Expected identifier"
  if ← at? (.symbol .leftParen) then
    let params ← formals
    return .functionDecl ⟨type, id, params, ← body limits, p⟩
  else
    semicolon "Expected ';' or '(' after identifier"
    return .variableDecl ⟨.primitive type, id, p⟩

def declaration (limits : Limits) : Parser Decl := do
  if ← at? (.keyword .struct) then
    if (← get).kindAhead? 2 = some (.symbol .leftCurly) then
      return .structDecl (← structDecl)
    else
      return .variableDecl (← variableDecl)
  else if ← atPrimitive then
    primitiveDeclaration limits
  else
    fail "Expected declaration"

def declarationsIn (limits : Limits) : Nat → Parser (List Decl)
  | 0 => exhausted
  | steps + 1 => do
    if ← at? .endOfInput then
      return []
    else
      let first ← declaration limits
      return first :: (← declarationsIn limits steps)

def program (limits : Limits) : Parser Program := do
  let p := (← current).position
  return ⟨← measured (declarationsIn limits), p⟩

end Cmm.Parser

namespace Cmm

def Program.ofTokens (limits : Limits) (tokens : List Token) : Except SyntaxError Program :=
  match Parser.program limits (Cursor.ofTokens tokens) with
  | .ok program _ => .ok program
  | .error e _ => .error e

end Cmm

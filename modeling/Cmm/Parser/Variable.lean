import Cmm.Parser.Expr
import Cmm.Syntax.Program

/-!
Reading types, variables, structs and formal parameters.
-/

namespace Cmm.Parser

def atPrimitive : Parser Bool := do
  return (Primitive.ofKind? (← current).kind).isSome

def atVariable : Parser Bool := do
  return (← atPrimitive) || (← at? (.keyword .struct))

def primitive : Parser Primitive := do
  match Primitive.ofKind? (← current).kind with
  | some type =>
    advance
    return type
  | none => fail "Expected type"

def semicolon (message : String) : Parser Unit := do
  let _ ← expect (.symbol .semicolon) message

def variableDecl : Parser VariableDecl := do
  let p := (← current).position
  let type ← if ← accept (.keyword .struct) then
    VariableType.struct <$> name "Expected struct name"
  else
    VariableType.primitive <$> primitive
  let id ← name "Expected identifier"
  semicolon "Expected ';' after declaration"
  return ⟨type, id, p⟩

def variableDeclsIn : Nat → Parser (List VariableDecl)
  | 0 => exhausted
  | steps + 1 => do
    if ← atVariable then
      let first ← variableDecl
      return first :: (← variableDeclsIn steps)
    else
      return []

def variableDecls : Parser VariableDecls := do
  let p := (← current).position
  return ⟨← measured variableDeclsIn, p⟩

def field : Parser VariableDecl := do
  if ← atVariable then variableDecl else fail "Expected field declaration"

def fieldsIn : Nat → Parser (List VariableDecl)
  | 0 => exhausted
  | steps + 1 => do
    if ← at? (.symbol .rightCurly) then
      return []
    else
      let first ← field
      return first :: (← fieldsIn steps)

def structDecl : Parser StructDecl := do
  let t ← expect (.keyword .struct) "Expected 'struct'"
  let id ← name "Expected struct name"
  let brace ← expect (.symbol .leftCurly) "Expected '\x7b' after struct name"
  let first ← field
  let more ← measured fieldsIn
  let _ ← expect (.symbol .rightCurly) "Expected '\x7d' after struct fields"
  semicolon "Expected ';' after struct declaration"
  return ⟨id, first, more, brace.position, t.position⟩

def formal : Parser Formal := do
  let p := (← current).position
  let type ← primitive
  return ⟨type, ← name "Expected parameter name", p⟩

def formalsIn : Nat → Parser (List Formal)
  | 0 => exhausted
  | steps + 1 => do
    let first ← formal
    if ← accept (.symbol .comma) then
      return first :: (← formalsIn steps)
    else
      return [first]

def formals : Parser Formals := do
  let paren ← expect (.symbol .leftParen) "Expected '('"
  let items ← if ← at? (.symbol .rightParen) then pure [] else measured formalsIn
  let _ ← expect (.symbol .rightParen) "Expected ')' after parameter list"
  return ⟨items, paren.position⟩

end Cmm.Parser

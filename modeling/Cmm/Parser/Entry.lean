import Cmm.Parser.Program

/-!
The parts of a program that can be read on their own, the trees that they give, and what can be
asked of a cursor, one thing after another.
-/

namespace Cmm

inductive Entry where
  | program
  | declaration
  | type
  | variableDecl
  | variableDecls
  | structDecl
  | formals
  | body
  | block
  | condition (keyword : String)
  | statement
  | expression
  | binary (minimum : Int)
  | unary
  | primary
  | location
  | call
  | name (message : String)
  | assignment
  | assignmentTo (lhs : Loc)
  deriving DecidableEq, Repr

/-- Reads a part; a block gives two trees, every other part one. -/
def Entry.parse (limits : Limits) : Entry → Parser (List Node)
  | .program => return [(← Parser.program limits).toNode]
  | .declaration => return [(← Parser.declaration limits).toNode]
  | .type => do
    let p := (← Parser.current).position
    return [.primitive (← Parser.primitive) p]
  | .variableDecl => return [(← Parser.variableDecl).toNode]
  | .variableDecls => return [(← Parser.variableDecls).toNode]
  | .structDecl => return [(← Parser.structDecl).toNode]
  | .formals => return [(← Parser.formals).toNode]
  | .body => return [(← Parser.body limits).toNode]
  | .block => do
    let block ← Parser.block limits
    return [block.declsNode, block.stmtsNode]
  | .condition keyword => return [(← Parser.condition limits keyword).toNode]
  | .statement => return [(← Parser.statement limits).toNode]
  | .expression => return [(← Parser.expression limits).toNode]
  | .binary minimum => return [(← Parser.binary limits minimum).toNode]
  | .unary => return [(← Parser.unary limits).toNode]
  | .primary => return [(← Parser.primary limits).toNode]
  | .location => return [(← Parser.location limits).toNode]
  | .call => return [(← Parser.call limits).toNode]
  | .name message => return [(← Parser.name message).toNode]
  | .assignment => do
    let lhs ← Parser.location limits
    return [(← Parser.assignment limits lhs).toNode]
  | .assignmentTo lhs => return [(← Parser.assignment limits lhs).toNode]

namespace Cursor

inductive Action where
  | advance
  | peek (distance : Int)
  | parse (entry : Entry)
  deriving DecidableEq, Repr

inductive Answer where
  | token (token : Token)
  | found (lookup : Lookup Token)
  | trees (trees : Except SyntaxError (List Node))
  deriving Repr

def outOfRange : String := "list index out of range"

def perform (limits : Limits) (c : Cursor) : Action → Answer × Cursor
  | .advance => (.token c.advance.current, c.advance)
  | .peek distance => (.found (c.peek distance), c)
  | .parse entry =>
    match entry.parse limits c with
    | .ok trees c => (.trees (.ok trees), c)
    | .error e c => (.trees (.error e), c)

end Cursor

end Cmm

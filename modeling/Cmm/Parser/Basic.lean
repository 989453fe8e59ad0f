import Cmm.Parser.Cursor

/-!
Parsers: they read tokens from a cursor on and give a value, or fail with a syntax error.  The
cursor is left where the reading ended, also after an error.

Nesting and the height of expressions are limited.  A level of nesting that would exceed the limit
stays counted, while the levels around it are taken back as the error passes them.  How many calls
may be open at once is not limited here; they are counted in `Cmm.Parser.Calls`.
-/

namespace Cmm

inductive SyntaxCause where
  | unexpected (message : String)
  | tooDeep (limit : Int)
  | tooHigh (limit : Int)
  /-- The steps ran out; they do not where the last token is the end of the input. -/
  | exhausted
  deriving DecidableEq, Repr

def SyntaxCause.message : SyntaxCause → String
  | .unexpected message => message
  | .tooDeep limit => s!"Nesting too deep (max_depth={limit})"
  | .tooHigh limit => s!"Expression too deeply nested (max_height={limit})"
  | .exhausted => "Input exhausted"

structure SyntaxError where
  cause : SyntaxCause
  token : Option Token
  deriving DecidableEq, Repr

namespace SyntaxError

def message (e : SyntaxError) : String := e.cause.message

def text (e : SyntaxError) : String :=
  match e.token with
  | some t => locate e.message t.position
  | none => e.message

end SyntaxError

structure Limits where
  depth : Int := 250
  height : Int := 75
  deriving DecidableEq, Repr

abbrev Parser := EStateM SyntaxError Cursor

namespace Parser

def current : Parser Token := do
  return (← get).current

def advance : Parser Unit := modify Cursor.advance

def failAt {α : Type} (cause : SyntaxCause) (t : Token) : Parser α := throw ⟨cause, some t⟩

def fail {α : Type} (message : String) : Parser α := do
  failAt (.unexpected message) (← current)

def at? (kind : Kind) : Parser Bool := do
  return (← current).kind = kind

def accept (kind : Kind) : Parser Bool := do
  if ← at? kind then
    advance
    return true
  else
    return false

def expect (kind : Kind) (message : String) : Parser Token := do
  let t ← current
  if t.kind = kind then
    advance
    return t
  else
    fail message

def enter (limits : Limits) : Parser Unit := do
  modify fun c => { c with depth := c.depth + 1 }
  let c ← get
  if limits.depth < c.depth then failAt (.tooDeep limits.depth) c.current

def leave (c : Cursor) : Cursor := { c with depth := c.depth - 1 }

def nested {α : Type} (limits : Limits) (p : Parser α) : Parser α := do
  enter limits
  fun c => match p c with
    | .ok a c => .ok a (leave c)
    | .error e c => .error e (leave c)

def checkHeight (limits : Limits) (height : Nat) (t : Token) : Parser Unit := do
  if limits.height < height then failAt (.tooHigh limits.height) t

/-- Runs a parser with as many steps as the tokens to come allow. -/
def measured {α : Type} (p : Nat → Parser α) : Parser α := fun c =>
  p (4 * (c.after.length + 1) + 8) c

def exhausted {α : Type} : Parser α := do
  failAt .exhausted (← current)

end Parser

end Cmm

import Cmm.Lookup
import Cmm.Token.Basic

/-!
A place in a list of tokens.

The tokens behind the cursor are stored in reverse order in `before`, the current token and those
after it separately, so there always is a current token.  The last token is the end of the input,
and the cursor does not move beyond it.  `depth` counts the levels of nesting that are open.
-/

namespace Cmm

structure Cursor where
  before : List Token
  current : Token
  after : List Token
  depth : Nat
  deriving DecidableEq, Repr

/-- The tokens, with the end of the input added behind the last one if it is missing. -/
def closeInput (tokens : List Token) : List Token :=
  match tokens.getLast? with
  | none => [.endOfInput .start]
  | some last =>
    if last.kind = .endOfInput then tokens else tokens ++ [.endOfInput last.position]

namespace Cursor

def ofTokens (tokens : List Token) : Cursor :=
  match closeInput tokens with
  | [] => ⟨[], .endOfInput .start, [], 0⟩
  | first :: rest => ⟨[], first, rest, 0⟩

def tokens (c : Cursor) : List Token := c.before.reverse ++ c.current :: c.after

def index (c : Cursor) : Nat := c.before.length

def advance (c : Cursor) : Cursor :=
  match c.after with
  | [] => c
  | next :: rest => { c with before := c.current :: c.before, current := next, after := rest }

def peek (c : Cursor) (distance : Int) : Lookup Token := lookup c.tokens (c.index + distance)

def kindAhead? (c : Cursor) (distance : Nat) : Option Kind :=
  (c.current :: c.after)[distance]?.map Token.kind

theorem closeInput_ne_nil (tokens : List Token) : closeInput tokens ≠ [] := by
  unfold closeInput
  cases h : tokens.getLast? with
  | none => simp
  | some last =>
    have : tokens ≠ [] := by
      rintro rfl
      simp at h
    simp only
    split <;> simp [this]

theorem tokens_ofTokens (tokens : List Token) : (ofTokens tokens).tokens = closeInput tokens := by
  unfold ofTokens
  cases h : closeInput tokens with
  | nil => exact absurd h (closeInput_ne_nil tokens)
  | cons first rest => rfl

theorem tokens_advance (c : Cursor) : c.advance.tokens = c.tokens := by
  unfold advance tokens
  cases h : c.after <;> simp [h]

end Cursor

end Cmm

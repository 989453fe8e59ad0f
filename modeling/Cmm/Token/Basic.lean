import Cmm.Position
import Cmm.Text.Quoted
import Cmm.Token.Kind

/-!
Tokens: a lexeme at a position.

A reserved word or symbol carries the text that it was written with.  A token that comes from a
source text is spelled as its kind says, but a token list made by hand may spell it in any way.
-/

namespace Cmm

inductive Lexeme where
  | number (value : Int)
  | string (raw : String)
  | name (text : String)
  | keyword (word : Keyword) (text : String)
  | symbol (sign : Symbol) (text : String)
  | endOfInput
  deriving DecidableEq, Repr

namespace Lexeme

def kind : Lexeme → Kind
  | .number _ => .number
  | .string _ => .string
  | .name _ => .name
  | .keyword word _ => .keyword word
  | .symbol sign _ => .symbol sign
  | .endOfInput => .endOfInput

def ofWord (text : String) : Lexeme :=
  match Keyword.ofSpelling? text with
  | some word => .keyword word text
  | none => .name text

def ofSymbol (sign : Symbol) : Lexeme := .symbol sign sign.spelling

def shown : Lexeme → String
  | .number value => toString value
  | .string text | .name text | .keyword _ text | .symbol _ text => Text.quoted text
  | .endOfInput => "None"

end Lexeme

structure Token where
  lexeme : Lexeme
  position : Position
  deriving DecidableEq, Repr

namespace Token

def kind (t : Token) : Kind := t.lexeme.kind

def endOfInput (p : Position) : Token := ⟨.endOfInput, p⟩

def shown (t : Token) : String :=
  s!"Token({t.kind.label}, {t.lexeme.shown}, {t.position.text})"

end Token

end Cmm

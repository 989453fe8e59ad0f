import Cmm.Position

/-!
What can go wrong in cutting a text into tokens.

Lexical errors are collected, and the characters they are about are left out.  A numeral that
cannot be read ends the scan.
-/

namespace Cmm

inductive LexicalCause where
  | unterminatedString
  | unterminatedBadEscape
  | badEscape
  | illegalCharacter (c : Char)
  | custom (message : String)
  deriving DecidableEq, Repr

def LexicalCause.message : LexicalCause → String
  | .unterminatedString => "Unterminated string literal ignored"
  | .unterminatedBadEscape => "Unterminated string literal with bad escaped character ignored"
  | .badEscape => "String literal with bad escaped character ignored"
  | .illegalCharacter c => "Illegal character ignored: '" ++ String.singleton c ++ "'"
  | .custom message => message

structure LexicalError where
  cause : LexicalCause
  position : Position
  deriving DecidableEq, Repr

namespace LexicalError

def message (e : LexicalError) : String := e.cause.message

def text (e : LexicalError) : String := locate e.message e.position

end LexicalError

inductive NumeralError where
  | noDigits
  | tooManyDigits (limit count : Nat)
  deriving DecidableEq, Repr

def NumeralError.message : NumeralError → String
  | .noDigits => "invalid literal for int() with base 10: ''"
  | .tooManyDigits limit count =>
    s!"Exceeds the limit ({limit} digits) for integer string conversion: value has {count} " ++
      "digits; use sys.set_int_max_str_digits() to increase the limit"

end Cmm

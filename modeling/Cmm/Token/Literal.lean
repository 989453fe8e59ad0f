import Cmm.Text.Alphanumeric
import Cmm.Text.Integer
import Cmm.Token.Fault

/-!
The literals and words at the front of a text.

Each function takes characters from the front and says what they are; what is taken and what is
left concatenate to the text.
-/

namespace Cmm

/-! ## String literals -/

def isEscape (c : Char) : Bool := c ∈ ['n', 't', '\'', '"', '\\']

/-- A string literal behind its opening quote: the characters taken, the text left, whether the
closing quote was among the taken ones, and whether a backslash was followed by a character that
may not follow it. -/
structure StringScan where
  taken : List Char
  rest : List Char
  closed : Bool
  badEscape : Bool
  deriving DecidableEq, Repr

namespace StringScan

def push (scan : StringScan) (front : List Char) (bad : Bool) : StringScan :=
  { scan with taken := front ++ scan.taken, badEscape := bad || scan.badEscape }

def cause? (scan : StringScan) : Option LexicalCause :=
  match scan.closed, scan.badEscape with
  | true, false => none
  | true, true => some .badEscape
  | false, true => some .unterminatedBadEscape
  | false, false => some .unterminatedString

end StringScan

/-- Takes a string literal whose opening quote has been taken.  It ends with the first quote that
no backslash takes along, or in front of a line feed or the end of the text. -/
def scanString : List Char → StringScan
  | [] => ⟨[], [], false, false⟩
  | '"' :: rest => ⟨['"'], rest, true, false⟩
  | '\n' :: rest => ⟨[], '\n' :: rest, false, false⟩
  | ['\\'] => ⟨['\\'], [], false, false⟩
  | '\\' :: '\n' :: rest => ⟨['\\'], '\n' :: rest, false, false⟩
  | '\\' :: c :: rest => (scanString rest).push ['\\', c] (!isEscape c)
  | c :: rest => (scanString rest).push [c] false

theorem scanString_tiles (text : List Char) :
    (scanString text).taken ++ (scanString text).rest = text := by
  fun_induction scanString text <;> simp_all [StringScan.push]

/-! ## Numbers -/

def maxNumber : Nat := 2147483647

def numeralValue (digits : List Char) : Except NumeralError Nat :=
  if digits = [] then .error .noDigits
  else if Text.digitLimit < digits.length then
    .error (.tooManyDigits Text.digitLimit digits.length)
  else .ok (Nat.ofDigitChars 10 digits 0)

/-! ## Words -/

def isWordStart (c : Char) : Bool := Text.isLetter c || c = '_'

def isWordPart (c : Char) : Bool := Text.isAlphanumeric c || c = '_'

theorem isWordPart_of_isWordStart {c : Char} (h : isWordStart c = true) :
    isWordPart c = true := by
  simp only [isWordStart, isWordPart, Text.isAlphanumeric, Bool.or_eq_true] at h ⊢
  rcases h with h | h
  · exact .inl (.inl h)
  · exact .inr h

/-! ## Blanks and comments -/

def isSpace (c : Char) : Bool := c = ' ' || c = '\t' || c = '\r' || c = '\n'

def inLine (c : Char) : Bool := c ≠ '\n'

end Cmm

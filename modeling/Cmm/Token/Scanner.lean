import Cmm.Lookup
import Cmm.Token.Scan

/-!
A scanner that is driven step by step.

The characters behind it are stored in reverse order in `before`, the others in `rest`.  Errors
and warnings are added at the end of their lists.  What it can be asked are its actions.
-/

namespace Cmm

structure Scanner where
  before : List Char
  rest : List Char
  position : Position
  errors : List LexicalError
  warnings : List Warning
  deriving DecidableEq, Repr

namespace Scanner

def ofText (text : List Char) : Scanner := ⟨[], text, .start, [], []⟩

def text (s : Scanner) : List Char := s.before.reverse ++ s.rest

def offset (s : Scanner) : Nat := s.before.length

def skip (s : Scanner) (count : Nat) : Scanner :=
  { s with
    before := (s.rest.take count).reverse ++ s.before
    rest := s.rest.drop count
    position := s.position.after (s.rest.take count) }

theorem text_skip (s : Scanner) (count : Nat) : (s.skip count).text = s.text := by
  simp [skip, text]

def report (s : Scanner) (cause : LexicalCause) (p : Position) : Scanner :=
  { s with errors := s.errors ++ [⟨cause, p⟩] }

def warn (s : Scanner) (warning : Warning) : Scanner :=
  { s with warnings := s.warnings ++ [warning] }

def current? (s : Scanner) : Option Char := s.rest.head?

def peek (s : Scanner) (distance : Int) : Lookup Char := lookup s.text (s.offset + distance)

def advance (s : Scanner) : Option Char × Scanner := (s.current?, s.skip 1)

def skipSpaces (s : Scanner) : Scanner := s.skip (s.rest.takeWhile isSpace).length

def skipLine (s : Scanner) : Scanner := s.skip (s.rest.takeWhile inLine).length

/-- Takes a string literal, whose opening quote is the current character, whatever it is.  A
malformed literal is reported where it starts. -/
def readString (s : Scanner) : Option String × Scanner :=
  match s.rest with
  | [] => (none, s.report .unterminatedString s.position)
  | c :: rest =>
    let scan := scanString rest
    let after := s.skip (1 + scan.taken.length)
    match scan.cause? with
    | some cause => (none, after.report cause s.position)
    | none => (some (String.ofList (c :: scan.taken)), after)

/-- Takes a run of digits.  A number beyond the greatest value gives that value and a warning
about the given position. -/
def readNumber (s : Scanner) (p : Position) : Except NumeralError Int × Scanner :=
  let digits := s.rest.takeWhile Char.isDigit
  let after := s.skip digits.length
  match numeralValue digits with
  | .error e => (.error e, after)
  | .ok value =>
    (.ok (min value maxNumber : Nat),
      if maxNumber < value then after.warn (.numberTooLarge p) else after)

def readWord (s : Scanner) : String × Scanner :=
  let word := s.rest.takeWhile isWordPart
  (String.ofList word, s.skip word.length)

def scan (s : Scanner) : Except NumeralError (List Token) × Scanner :=
  let result := Scan.ofText s.text
  (result.tokens,
    { (ofText s.text).skip result.text.length with
      errors := result.errors
      warnings := result.warnings })

/-! ## Actions -/

inductive Action where
  | current
  | peek (distance : Int)
  | advance
  | skipSpaces
  | skipLine
  | readString
  | readNumber (position : Position)
  | readWord
  | hasErrors
  | scan
  deriving DecidableEq, Repr

inductive Answer where
  | nothing
  | character (c : Option Char)
  | found (lookup : Lookup Char)
  | text (text : Option String)
  | number (value : Except NumeralError Int)
  | truth (value : Bool)
  | tokens (tokens : Except NumeralError (List Token))
  deriving Repr

def outOfRange : String := "string index out of range"

def perform (s : Scanner) : Action → Answer × Scanner
  | .current => (.character s.current?, s)
  | .peek distance => (.found (s.peek distance), s)
  | .advance => (.character s.advance.1, s.advance.2)
  | .skipSpaces => (.nothing, s.skipSpaces)
  | .skipLine => (.nothing, s.skipLine)
  | .readString => (.text s.readString.1, s.readString.2)
  | .readNumber p => (.number (s.readNumber p).1, (s.readNumber p).2)
  | .readWord => (.text (some s.readWord.1), s.readWord.2)
  | .hasErrors => (.truth !s.errors.isEmpty, s)
  | .scan => (.tokens s.scan.1, s.scan.2)

end Scanner

end Cmm

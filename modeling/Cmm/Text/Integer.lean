import Cmm.Text.DecimalDigit

/-!
Integers written in decimal digits.

The value of a numeral is that of core's `Nat.ofDigitChars`.  No numeral may have more than
`digitLimit` digits, leading zeros counted.  `readInteger?` reads a setting that a user wrote:
blanks around it, a sign, digits of any script and single underscores between digits are allowed.
-/

namespace Cmm.Text

/-- The greatest number of digits that a numeral may have. -/
def digitLimit : Nat := 4300

def isBlank (c : Char) : Bool :=
  c = ' ' || (0x9 ≤ c.toNat && c.toNat ≤ 0xD) || c.toNat = 0x85 || c.toNat = 0xA0 ||
    c.toNat = 0x1680 || (0x2000 ≤ c.toNat && c.toNat ≤ 0x200A) || c.toNat = 0x2028 ||
    c.toNat = 0x2029 || c.toNat = 0x202F || c.toNat = 0x205F || c.toNat = 0x3000

def trimBlanks (text : List Char) : List Char :=
  ((text.dropWhile isBlank).reverse.dropWhile isBlank).reverse

/-- Digits of any script, single underscores allowed between two of them, as ASCII digits. -/
def readDigits? : List Char → Option (List Char)
  | [] => none
  | [c] => do
    let v ← digitValue? c
    some [v.digitChar]
  | c :: '_' :: rest => do
    let v ← digitValue? c
    let digits ← readDigits? rest
    some (v.digitChar :: digits)
  | c :: d :: rest => do
    let v ← digitValue? c
    let digits ← readDigits? (d :: rest)
    some (v.digitChar :: digits)

def readNatural? (text : List Char) : Option Nat := do
  let digits ← readDigits? text
  guard (digits.length ≤ digitLimit)
  some (Nat.ofDigitChars 10 digits 0)

def readInteger? (text : String) : Option Int :=
  match trimBlanks text.toList with
  | '+' :: rest => (readNatural? rest).map Int.ofNat
  | '-' :: rest => (readNatural? rest).map fun n => -Int.ofNat n
  | rest => (readNatural? rest).map Int.ofNat

example : readInteger? " -1_0\n" = some (-10) := by decide
example : readInteger? "٣" = some 3 := by decide
example : readInteger? "1__0" = none := by decide
example : readInteger? "- 1" = none := by decide

end Cmm.Text

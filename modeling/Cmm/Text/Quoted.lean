import Cmm.Text.Printable

/-!
Quoted text, as tokens, file names and settings are shown in messages.

The text stands in single quotes, or in double quotes if it holds a single quote and no double
one.  The quote and the backslash are escaped, line feed, carriage return and tab are written
`\n`, `\r` and `\t`, and every other character that is not printable is written by its code point.
-/

namespace Cmm.Text

def quoteFor (text : List Char) : Char :=
  if '\'' ∈ text ∧ '"' ∉ text then '"' else '\''

def hexadecimal (width n : Nat) : List Char :=
  let digits := Nat.toDigits 16 n
  List.replicate (width - digits.length) '0' ++ digits

/-- A character by its code point, in the shortest of the three forms that holds it. -/
def codePoint (c : Char) : List Char :=
  if c.toNat < 0x100 then '\\' :: 'x' :: hexadecimal 2 c.toNat
  else if c.toNat < 0x10000 then '\\' :: 'u' :: hexadecimal 4 c.toNat
  else '\\' :: 'U' :: hexadecimal 8 c.toNat

def escaped (quote c : Char) : List Char :=
  if c = quote ∨ c = '\\' then ['\\', c]
  else if c = '\n' then ['\\', 'n']
  else if c = '\r' then ['\\', 'r']
  else if c = '\t' then ['\\', 't']
  else if isPrintable c then [c]
  else codePoint c

def quoted (text : String) : String :=
  let quote := quoteFor text.toList
  String.ofList (quote :: text.toList.flatMap (escaped quote) ++ [quote])

example : quoted "it's" = "\"it's\"" := by decide
example : quoted "a\\\n" = "'a\\\\\\n'" := by decide

end Cmm.Text

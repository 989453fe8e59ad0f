import Cmm.Disk
import Cmm.Text.Utf8

/-!
Writing a text to a file.

The file is opened, the text is encoded, and the bytes are filled in as far as there is space.  So
an open file is left empty if the text cannot be encoded.  Names hold no unpaired surrogates.
-/

namespace Cmm

structure Medium where
  /-- How many bytes there is space for, if that is bounded. -/
  space : Option Nat := none
  /-- The unpaired surrogate that a character of the text stands for. -/
  surrogate? : Char → Option Nat := fun _ => none

/-- What stops the writing of a text and is not reported as a fault of the file. -/
inductive Escape where
  | nullInName
  | unencodable (fault : Text.Utf8.EncodeFault)
  deriving DecidableEq, Repr

def Escape.message : Escape → String
  | .nullInName => OpenError.nullInName.message
  | .unencodable fault => fault.message

namespace Medium

def encode (medium : Medium) (text : String) : Except Text.Utf8.EncodeFault (List UInt8) :=
  Text.Utf8.encodeStrict medium.surrogate? text.toList

def write (medium : Medium) (disk : Disk) (name text : String) :
    Except Escape (Except WriteFault Unit) × Disk :=
  match disk.openEmpty name with
  | .error .nullInName => (.error .nullInName, disk)
  | .error (.fault fault) => (.ok (.error (.unopened fault)), disk)
  | .ok (path, opened) =>
    match medium.encode text with
    | .error fault => (.error (.unencodable fault), opened)
    | .ok bytes =>
      let (filled, disk) := opened.fill path bytes medium.space
      (.ok filled, disk)

end Medium

end Cmm

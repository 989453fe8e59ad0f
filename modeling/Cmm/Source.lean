import Cmm.Parser.Program
import Cmm.Token.Scan

/-!
Programs as texts: a text is scanned as a whole before it is read.
-/

namespace Cmm

inductive SourceError where
  | scanning (failure : ScanFailure)
  | parsing (error : SyntaxError)
  deriving DecidableEq, Repr

def Program.ofText (limits : Limits) (source : String) : Except SourceError Program := do
  let tokens ← (Scan.ofText source.toList).result.mapError .scanning
  (Program.ofTokens limits tokens).mapError .parsing

end Cmm

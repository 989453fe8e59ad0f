import Cmm.Token.Segment

/-!
The scan of a source text: the pieces up to the first numeral that cannot be read, and what they
give in the order of the text.
-/

namespace Cmm

structure Scan where
  /-- The pieces that were read. -/
  pieces : List Piece
  /-- The piece that ended the scan before the end of the text. -/
  stop : Option Piece
  /-- The position behind the last piece that was read. -/
  finish : Position
  deriving DecidableEq, Repr

namespace Scan

def ofText (text : List Char) : Scan :=
  let all := Piece.place .start (Segment.split text)
  let isReadable := fun (piece : Piece) => piece.segment.unreadable?.isNone
  let pieces := all.takeWhile isReadable
  ⟨pieces, (all.dropWhile isReadable).head?,
    Position.start.after (pieces.flatMap (·.segment.text))⟩

def errors (scan : Scan) : List LexicalError := scan.pieces.filterMap Piece.error?

def warnings (scan : Scan) : List Warning := scan.pieces.filterMap Piece.warning?

/-- The tokens, ended by the end of the input, unless the scan was stopped. -/
def tokens (scan : Scan) : Except NumeralError (List Token) :=
  match scan.stop.bind (·.segment.unreadable?) with
  | some e => .error e
  | none => .ok (scan.pieces.filterMap Piece.token? ++ [Token.endOfInput scan.finish])

def text (scan : Scan) : List Char :=
  scan.pieces.flatMap (·.segment.text) ++ (scan.stop.map (·.segment.text)).getD []

end Scan

inductive ScanFailure where
  | numeral (error : NumeralError)
  | lexical (errors : List LexicalError)
  deriving DecidableEq, Repr

def ScanFailure.message : ScanFailure → String
  | .numeral e => e.message
  | .lexical errors => "\n".intercalate (errors.map LexicalError.text)

def Scan.result (scan : Scan) : Except ScanFailure (List Token) :=
  match scan.tokens with
  | .error e => .error (.numeral e)
  | .ok tokens => if scan.errors = [] then .ok tokens else .error (.lexical scan.errors)

end Cmm

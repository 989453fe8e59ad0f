import Cmm.Medium
import Cmm.Node.Outline
import Cmm.Node.Printer
import Cmm.Parser.Program
import Cmm.Settings
import Cmm.Text.LineEnds
import Cmm.Token.Scan

/-!
Runs over texts and files: a source is scanned, read as a program and printed again.

A session keeps its settings, and the warnings of the last run together with those of the scans
after it.  A run gives a report; the stage that fails is the only one that the report blames.
-/

namespace Cmm

/-! ## Reports -/

inductive ReadFault where
  | file (fault : FileFault)
  | encoding (fault : Text.Utf8.Fault)
  deriving DecidableEq, Repr

def ReadFault.message : ReadFault → String
  | .file fault => fault.message
  | .encoding fault => fault.message

inductive Failure where
  | reading (fault : ReadFault)
  | scanning (failure : ScanFailure)
  | parsing (error : SyntaxError)
  | printing (fault : PrintFault)
  | writing (fault : WriteFault)
  deriving DecidableEq, Repr

def Failure.message : Failure → String
  | .reading fault => "Failed to read source file: " ++ fault.message
  | .scanning failure => "Lexical analysis failed: " ++ failure.message
  | .parsing e => "Syntax analysis failed: " ++ e.text
  | .printing fault => "Unparsing failed: " ++ fault.message
  | .writing fault => "Failed to write output file: " ++ fault.message

structure Product where
  text : String
  output : Option String
  deriving DecidableEq, Repr

/-- What a run tells: the program is there if the source was read as one, even if a later stage
failed. -/
structure Report where
  result : Except Failure Product
  warnings : List Warning
  program : Option Program
  deriving Repr

namespace Report

def succeeded (r : Report) : Bool := r.result.isOk

def errors (r : Report) : List String :=
  match r.result with
  | .ok _ => []
  | .error failure => [failure.message]

def text? (r : Report) : Option String := r.result.toOption.map Product.text

def output? (r : Report) : Option String := r.result.toOption.bind Product.output

end Report

/-! ## Sessions -/

structure Session where
  settings : Settings
  warnings : List Warning
  deriving DecidableEq, Repr

/-- The state after a run, and its report, if it came to that. -/
structure Run where
  session : Session
  disk : Disk
  report : Except Escape Report
  deriving Repr

namespace Session

def start (settings : Settings) : Session := ⟨settings, []⟩

/-- The tokens of a source.  The warnings of a scan that came to its end are added to the
session's, also if the source has lexical errors. -/
def tokens (s : Session) (source : String) : Except ScanFailure (List Token) × Session :=
  let scan := Scan.ofText source.toList
  match scan.tokens with
  | .error e => (.error (.numeral e), s)
  | .ok _ => (scan.result, { s with warnings := s.warnings ++ scan.warnings })

def program (s : Session) (tokens : List Token) : Except SyntaxError Program :=
  Program.ofTokens s.settings.limits tokens

def text (s : Session) (tree : Node) : Except PrintFault String :=
  let printed := tree.printWith s.settings.room s.settings.tabWidth
  match printed.fault with
  | some fault => .error fault
  | none => .ok printed.text

def reprint (s : Session) (disk : Disk) (source : String) (output : Option String)
    (medium : Medium := {}) : Run :=
  let (tokens, s) := { s with warnings := s.settings.warnings }.tokens source
  let report (result : Except Failure Product) (program : Option Program) : Report :=
    ⟨result, s.warnings, program⟩
  match tokens with
  | .error failure => ⟨s, disk, .ok (report (.error (.scanning failure)) none)⟩
  | .ok tokens =>
    match s.program tokens with
    | .error e => ⟨s, disk, .ok (report (.error (.parsing e)) none)⟩
    | .ok program =>
      match s.text program.toNode with
      | .error fault => ⟨s, disk, .ok (report (.error (.printing fault)) (some program))⟩
      | .ok text =>
        let done := report (.ok ⟨text, output⟩) (some program)
        match output with
        | none | some "" => ⟨s, disk, .ok done⟩
        | some name =>
          let (written, disk) := medium.write disk name text
          ⟨s, disk, written.map fun
            | .ok _ => done
            | .error fault => report (.error (.writing fault)) (some program)⟩

def sourceText (bytes : List UInt8) : Except Text.Utf8.Fault String := do
  let chars ← Text.Utf8.decode bytes
  return String.ofList (Text.unifyLineEnds chars)

/-- Prints a source file again.  A file that cannot be read leaves the session as it is.  One that
can be read holds no surrogates. -/
def reprintFile (s : Session) (disk : Disk) (path : String) (output : Option String)
    (space : Option Nat := none) : Run :=
  let unread (fault : ReadFault) : Run :=
    ⟨s, disk, .ok ⟨.error (.reading fault), s.settings.warnings, none⟩⟩
  match disk.read path with
  | .error .nullInName => ⟨s, disk, .error .nullInName⟩
  | .error (.fault fault) => unread (.file fault)
  | .ok bytes =>
    match sourceText bytes with
    | .error fault => unread (.encoding fault)
    | .ok source => s.reprint disk source output { space }

end Session

end Cmm

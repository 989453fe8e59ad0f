import Cmm.Options
import Cmm.Session

/-!
The command: it prints a source file again, or shows the outline of its tree, to a file or to the
standard output.
-/

namespace Cmm

/-- How the command ends: with an exit status, unless a null character in a file name stops it. -/
inductive Ending where
  | exit (status : Nat)
  | stopped (escape : Escape)
  deriving DecidableEq, Repr

structure Outcome where
  ending : Ending
  stdout : String
  stderr : String
  disk : Disk
  deriving DecidableEq, Repr

namespace Command

def warningLines (warnings : List Warning) : String :=
  String.join (warnings.map fun w => "Warning: " ++ w.message ++ "\n")

def errorLines (errors : List String) : String :=
  String.join (errors.map fun e => "Error: " ++ e ++ "\n")

def deliverOutline (outline stderr : String) (disk : Disk) (output : Option String)
    (space : Option Nat := none) : Outcome :=
  match output with
  | none | some "" => ⟨.exit 0, outline, stderr, disk⟩
  | some name =>
    let (written, disk) := Medium.write { space } disk name outline
    match written with
    | .ok (.ok _) => ⟨.exit 0, "", stderr, disk⟩
    | .ok (.error fault) =>
      ⟨.exit 1, s!"Error: cannot write {name}: {fault.message}\n", stderr, disk⟩
    | .error escape => ⟨.stopped escape, "", stderr, disk⟩

/-- Runs the command with options that have been read.  The warnings come before anything is
delivered. -/
def runOptions (options : Options) (environment : Option String) (disk : Disk)
    (space : Option Nat := none) : Outcome :=
  let settings := Settings.choose options.tab environment {}
  let output := if options.outline then none else options.output
  let run := (Session.start settings).reprintFile disk options.source output space
  match run.report with
  | .error e => ⟨.stopped e, "", "", run.disk⟩
  | .ok report =>
    let stderr := warningLines report.warnings
    match report.result, report.program with
    | .ok product, some program =>
      if options.outline then
        deliverOutline (program.toNode.outline 0) stderr run.disk options.output space
      else
        match options.output with
        | none | some "" => ⟨.exit 0, product.text, stderr, run.disk⟩
        | some _ => ⟨.exit 0, "", stderr, run.disk⟩
    | _, _ => ⟨.exit 1, errorLines report.errors, stderr, run.disk⟩

def run (arguments : List String) (environment : Option String) (disk : Disk)
    (space : Option Nat := none) : Outcome :=
  match Options.read arguments with
  | .error .help => ⟨.exit 0, Options.help, "", disk⟩
  | .error (.usage e) => ⟨.exit 2, "", e.text, disk⟩
  | .ok options => runOptions options environment disk space

end Command

end Cmm

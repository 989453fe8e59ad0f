import Cmm.Session

/-!
What can be asked of a session, one thing after another.
-/

namespace Cmm.Session

inductive Action where
  | reprint (source : String) (output : Option String) (medium : Medium := {})
  | reprintFile (path : String) (output : Option String) (space : Option Nat := none)
  | tokens (source : String)
  | program (tokens : List Token)
  | text (tree : Node)

inductive Answer where
  | report (report : Except Escape Report)
  | tokens (tokens : Except ScanFailure (List Token))
  | program (program : Except SyntaxError Program)
  | text (text : Except PrintFault String)
  deriving Repr

def ofRun (run : Run) : Answer × Session × Disk := (.report run.report, run.session, run.disk)

def perform (state : Session × Disk) (action : Action) : Answer × Session × Disk :=
  let (s, disk) := state
  match action with
  | .reprint source output medium => ofRun (s.reprint disk source output medium)
  | .reprintFile path output space => ofRun (s.reprintFile disk path output space)
  | .tokens source =>
    let (tokens, s) := s.tokens source
    (.tokens tokens, s, disk)
  | .program tokens => (.program (s.program tokens), s, disk)
  | .text tree => (.text (s.text tree), s, disk)

end Cmm.Session

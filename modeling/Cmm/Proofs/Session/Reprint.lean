import Cmm.Proofs.Medium
import Cmm.Session
import Mathlib.Data.Option.Basic

/-!
# The stages of a run

A run scans a source, reads it as a program, prints the program and writes the text.  The stage that
fails ends the run, and only the last one touches the disk.
-/

namespace Cmm

/-- The file that is named, if one is, can be written. -/
def Disk.Takes (disk : Disk) (output : Option String) : Prop :=
  ∀ name, output = some name → name ≠ "" → ∀ bytes, ∃ disk', disk.write name bytes = .ok disk'

namespace Session

variable {s : Session} {disk : Disk} {source : String} {output : Option String}
  {medium : Medium}

theorem output_cases (output : Option String) :
    (output = none ∨ output = some "") ∨ ∃ name, output = some name ∧ name ≠ "" := by
  by_cases hnone : output = none ∨ output = some ""
  · exact .inl hnone
  · obtain ⟨name, rfl⟩ := Option.ne_none_iff_exists'.1 fun h => hnone (.inl h)
    exact .inr ⟨name, rfl, fun h => hnone (.inr (congrArg some h))⟩

theorem not_unnamed {name : String} (houtput : output = some name) (hname : name ≠ "") :
    ¬(output = none ∨ output = some "") := by
  rintro (hnone | hempty)
  · cases houtput.symm.trans hnone
  · exact hname (Option.some.inj (houtput.symm.trans hempty))

theorem takes_of_unnamed (h : output = none ∨ output = some "") : disk.Takes output :=
  fun _ houtput hname => absurd h (not_unnamed houtput hname)

/-! ## The scan -/

def scanned (s : Session) (source : String) : Session :=
  ({ s with warnings := s.settings.warnings }.tokens source).2

theorem tokens_eq (s : Session) (source : String) :
    (s.tokens source).1 = (Scan.ofText source.toList).result := by
  unfold tokens Scan.result
  dsimp only
  split <;> simp [*]

theorem settings_scanned (s : Session) (source : String) :
    (s.scanned source).settings = s.settings := by
  unfold scanned tokens
  dsimp only
  split <;> rfl

theorem warnings_scanned {tokens : List Token}
    (h : (Scan.ofText source.toList).tokens = .ok tokens) :
    (s.scanned source).warnings = s.settings.warnings ++ (Scan.ofText source.toList).warnings := by
  simp only [scanned, Session.tokens, h]

theorem program_scanned (s : Session) (source : String) (tokens : List Token) :
    (s.scanned source).program tokens = Program.ofTokens s.settings.limits tokens := by
  rw [Session.program, settings_scanned]

theorem text_scanned (s : Session) (source : String) (tree : Node) :
    (s.scanned source).text tree = s.text tree := by
  rw [Session.text, Session.text, settings_scanned]

theorem text_eq_ok_iff {tree : Node} {text : String} : s.text tree = .ok text ↔
    (tree.printWith s.settings.room s.settings.tabWidth).fault = none ∧
      (tree.printWith s.settings.room s.settings.tabWidth).text = text := by
  unfold Session.text
  dsimp only
  split <;> simp [*]

theorem text_eq_error_iff {tree : Node} {fault : PrintFault} : s.text tree = .error fault ↔
    (tree.printWith s.settings.room s.settings.tabWidth).fault = some fault := by
  unfold Session.text
  dsimp only
  split <;> simp [*]

/-! ## The stage that fails -/

theorem reprint_of_scan_error {failure : ScanFailure}
    (h : (Scan.ofText source.toList).result = .error failure) :
    s.reprint disk source output medium = ⟨s.scanned source, disk,
      .ok ⟨.error (.scanning failure), (s.scanned source).warnings, none⟩⟩ := by
  rw [← tokens_eq { s with warnings := s.settings.warnings }] at h
  unfold reprint
  dsimp only
  rw [h]
  rfl

section Scanned

variable {tokens : List Token} (htokens : (Scan.ofText source.toList).result = .ok tokens)

include htokens

theorem reprint_of_tokens : s.reprint disk source output medium =
    let report (result : Except Failure Product) (program : Option Program) : Report :=
      ⟨result, (s.scanned source).warnings, program⟩
    match Program.ofTokens s.settings.limits tokens with
    | .error e => ⟨s.scanned source, disk, .ok (report (.error (.parsing e)) none)⟩
    | .ok program =>
      match s.text program.toNode with
      | .error fault =>
        ⟨s.scanned source, disk, .ok (report (.error (.printing fault)) (some program))⟩
      | .ok text =>
        let done := report (.ok ⟨text, output⟩) (some program)
        match output with
        | none | some "" => ⟨s.scanned source, disk, .ok done⟩
        | some name =>
          let (written, disk) := medium.write disk name text
          ⟨s.scanned source, disk, written.map fun
            | .ok _ => done
            | .error fault => report (.error (.writing fault)) (some program)⟩ := by
  rw [← tokens_eq { s with warnings := s.settings.warnings }] at htokens
  rw [← program_scanned s source, funext (text_scanned s source · |>.symm)]
  unfold reprint
  dsimp only
  rw [htokens]
  rfl

theorem reprint_of_parse_error {e : SyntaxError}
    (h : Program.ofTokens s.settings.limits tokens = .error e) :
    s.reprint disk source output medium = ⟨s.scanned source, disk,
      .ok ⟨.error (.parsing e), (s.scanned source).warnings, none⟩⟩ := by
  rw [reprint_of_tokens htokens, h]

variable {program : Program} (hprogram : Program.ofTokens s.settings.limits tokens = .ok program)

include hprogram

theorem reprint_of_print_error {fault : PrintFault} (h : s.text program.toNode = .error fault) :
    s.reprint disk source output medium = ⟨s.scanned source, disk,
      .ok ⟨.error (.printing fault), (s.scanned source).warnings, some program⟩⟩ := by
  rw [reprint_of_tokens htokens, hprogram]
  dsimp only
  rw [h]

theorem reprint_of_text {text : String} (h : s.text program.toNode = .ok text)
    (houtput : output = none ∨ output = some "") :
    s.reprint disk source output medium = ⟨s.scanned source, disk,
      .ok ⟨.ok ⟨text, output⟩, (s.scanned source).warnings, some program⟩⟩ := by
  rw [reprint_of_tokens htokens, hprogram]
  dsimp only
  rw [h]
  rcases houtput with rfl | rfl
  · rfl
  · rfl

theorem reprint_of_name {text name : String} (h : s.text program.toNode = .ok text)
    (hname : name ≠ "") : s.reprint disk source (some name) medium =
      let report (result : Except Failure Product) : Report :=
        ⟨result, (s.scanned source).warnings, some program⟩
      let (written, disk) := medium.write disk name text
      ⟨s.scanned source, disk, written.map fun
        | .ok _ => report (.ok ⟨text, some name⟩)
        | .error fault => report (.error (.writing fault))⟩ := by
  rw [reprint_of_tokens htokens, hprogram]
  dsimp only
  rw [h]
  dsimp only
  split
  · rename_i heq
    cases heq
  · rename_i heq
    exact absurd (Option.some.inj heq) hname
  · rename_i heq
    cases heq
    rfl

theorem reprint_of_write {text name : String} {written : Disk}
    (h : s.text program.toNode = .ok text) (hname : name ≠ "")
    (hwrite : disk.write name (Text.Utf8.encode text.toList) = .ok written) :
    s.reprint disk source (some name) = ⟨s.scanned source, written,
      .ok ⟨.ok ⟨text, some name⟩, (s.scanned source).warnings, some program⟩⟩ := by
  rw [reprint_of_name htokens hprogram h hname, Medium.write_default hwrite]
  rfl

theorem report_of_text {text : String} (h : s.text program.toNode = .ok text)
    (houtput : disk.Takes output) : (s.reprint disk source output).report =
      .ok ⟨.ok ⟨text, output⟩, (s.scanned source).warnings, some program⟩ := by
  rcases output_cases output with hnone | ⟨name, rfl, hname⟩
  · rw [reprint_of_text htokens hprogram h hnone]
  · obtain ⟨written, hwrite⟩ := houtput name rfl hname (Text.Utf8.encode text.toList)
    rw [reprint_of_write htokens hprogram h hname hwrite]

theorem written_of_succeeded {text : String} (htext : s.text program.toNode = .ok text)
    {report : Report} (h : (s.reprint disk source output).report = .ok report)
    (hok : report.succeeded = true) :
    report = ⟨.ok ⟨text, output⟩, (s.scanned source).warnings, some program⟩ ∧
      ∀ name, output = some name → name ≠ "" →
        disk.write name (Text.Utf8.encode text.toList) =
          .ok (s.reprint disk source output).disk := by
  rcases output_cases output with hnone | ⟨name, rfl, hname⟩
  · rw [reprint_of_text htokens hprogram htext hnone] at h
    cases h
    exact ⟨rfl, fun name houtput hname => absurd hnone (not_unnamed houtput hname)⟩
  · rw [reprint_of_name htokens hprogram htext hname] at h ⊢
    have hwrites := ({} : Medium).writes disk name text
    generalize ({} : Medium).write disk name text = written at h hwrites ⊢
    obtain ⟨written, behind⟩ := written
    cases hwrites with
    | whole _ _ hwrite =>
        cases h
        refine ⟨rfl, ?_⟩
        rintro _ ⟨⟩ -
        exact hwrite
    | nullInName => cases h
    | unencodable => cases h
    | unopened | cut =>
        cases h
        cases hok

end Scanned

/-- What a run that succeeds went through. -/
theorem reprint_succeeded {report : Report} (h : (s.reprint disk source output).report = .ok report)
    (hok : report.succeeded = true) : ∃ tokens program text,
      (Scan.ofText source.toList).result = .ok tokens ∧
        Program.ofTokens s.settings.limits tokens = .ok program ∧
        s.text program.toNode = .ok text ∧
        report = ⟨.ok ⟨text, output⟩, (s.scanned source).warnings, some program⟩ ∧
        ∀ name, output = some name → name ≠ "" →
          disk.write name (Text.Utf8.encode text.toList) =
            .ok (s.reprint disk source output).disk := by
  cases htokens : (Scan.ofText source.toList).result with
  | error failure =>
      rw [reprint_of_scan_error htokens] at h
      cases h
      cases hok
  | ok tokens =>
      cases hprogram : Program.ofTokens s.settings.limits tokens with
      | error e =>
          rw [reprint_of_parse_error htokens hprogram] at h
          cases h
          cases hok
      | ok program =>
          cases htext : s.text program.toNode with
          | error fault =>
              rw [reprint_of_print_error htokens hprogram htext] at h
              cases h
              cases hok
          | ok text =>
              exact ⟨tokens, program, text, rfl, hprogram, htext,
                written_of_succeeded htokens hprogram htext h hok⟩

end Session

end Cmm

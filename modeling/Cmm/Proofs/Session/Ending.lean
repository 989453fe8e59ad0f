import Cmm.Proofs.Disk
import Cmm.Proofs.Program.Kinds
import Cmm.Proofs.Session.Reprint

/-!
# How a run ends

A run ends with the first of its stages that fails, or behind the last one.  What it tells is of one
piece then.  It has changed no file unless it was to write one and came to open it.
-/

namespace Cmm

/-! ## Sources -/

def Disk.source (disk : Disk) (path : String) : Except Escape (Except ReadFault String) :=
  match disk.read path with
  | .ok bytes => .ok ((Session.sourceText bytes).mapError .encoding)
  | .error (.fault fault) => .ok (.error (.file fault))
  | .error .nullInName => .error .nullInName

theorem Disk.exists_source (disk : Disk) {path : String} (hpath : '\x00' ∉ path.toList) :
    ∃ source, disk.source path = .ok source := by
  unfold source
  cases hread : disk.read path with
  | ok bytes => exact ⟨_, rfl⟩
  | error e =>
      cases e with
      | fault fault => exact ⟨_, rfl⟩
      | nullInName => exact absurd hread (opening_ne_nullInName hpath)

theorem Session.reprintFile_eq (s : Session) (disk : Disk) (path : String)
    (output : Option String) (space : Option Nat) :
    s.reprintFile disk path output space =
      match disk.source path with
      | .error e => ⟨s, disk, .error e⟩
      | .ok (.error fault) => ⟨s, disk, .ok ⟨.error (.reading fault), s.settings.warnings, none⟩⟩
      | .ok (.ok source) => s.reprint disk source output { space } := by
  unfold reprintFile Disk.source
  cases disk.read path with
  | ok bytes => cases hsource : sourceText bytes <;> simp [hsource, Except.mapError]
  | error e => cases e <;> rfl

/-! ## Endings -/

/-- The warnings that a session keeps of a scan: all of them, but none if a numeral that cannot be
read ended the scan. -/
def Scan.kept (scan : Scan) : List Warning :=
  match scan.tokens with
  | .error _ => []
  | .ok _ => scan.warnings

theorem Scan.kept_of_error {scan : Scan} {e : NumeralError} (h : scan.tokens = .error e) :
    scan.kept = [] := by
  rw [kept, h]

theorem Scan.kept_of_ok {scan : Scan} {tokens : List Token} (h : scan.tokens = .ok tokens) :
    scan.kept = scan.warnings := by
  rw [kept, h]

namespace Settings

def warned (settings : Settings) : Except ReadFault String → List Warning
  | .error _ => settings.warnings
  | .ok source => settings.warnings ++ (Scan.ofText source.toList).kept

structure Prints (settings : Settings) (source : String) (p : Program) (text : String) : Prop where
  program : Program.ofText settings.limits source = .ok p
  text : p.toNode.printWith settings.room settings.tabWidth = ⟨text, none⟩

/-- How a run ends over a source that was read or not: with a report, unless the writing of the text
was stopped, and with the files behind it. -/
inductive Ends (settings : Settings) (disk : Disk) (output : Option String) (medium : Medium) :
    Except ReadFault String → Except Escape Report → Disk → Prop where
  | reading (fault : ReadFault) : Ends settings disk output medium (.error fault)
      (.ok ⟨.error (.reading fault), settings.warned (.error fault), none⟩) disk
  | scanning {source : String} {failure : ScanFailure}
      (h : Program.ofText settings.limits source = .error (.scanning failure)) :
      Ends settings disk output medium (.ok source)
        (.ok ⟨.error (.scanning failure), settings.warned (.ok source), none⟩) disk
  | parsing {source : String} {e : SyntaxError}
      (h : Program.ofText settings.limits source = .error (.parsing e)) :
      Ends settings disk output medium (.ok source)
        (.ok ⟨.error (.parsing e), settings.warned (.ok source), none⟩) disk
  | printing {source : String} {p : Program} {fault : PrintFault}
      (hp : Program.ofText settings.limits source = .ok p)
      (h : (p.toNode.printWith settings.room settings.tabWidth).fault = some fault) :
      Ends settings disk output medium (.ok source)
        (.ok ⟨.error (.printing fault), settings.warned (.ok source), some p⟩) disk
  | writing {source name text : String} {p : Program} {fault : WriteFault} {disk' : Disk}
      (hprints : settings.Prints source p text) (houtput : output = some name) (hname : name ≠ "")
      (h : medium.Writes disk name text (.ok (.error fault)) disk') :
      Ends settings disk output medium (.ok source)
        (.ok ⟨.error (.writing fault), settings.warned (.ok source), some p⟩) disk'
  | stopped {source name text : String} {p : Program} {escape : Escape} {disk' : Disk}
      (hprints : settings.Prints source p text) (houtput : output = some name) (hname : name ≠ "")
      (h : medium.Writes disk name text (.error escape) disk') :
      Ends settings disk output medium (.ok source) (.error escape) disk'
  | told {source text : String} {p : Program}
      (hprints : settings.Prints source p text) (houtput : output = none ∨ output = some "") :
      Ends settings disk output medium (.ok source)
        (.ok ⟨.ok ⟨text, output⟩, settings.warned (.ok source), some p⟩) disk
  | written {source name text : String} {p : Program} {disk' : Disk}
      (hprints : settings.Prints source p text) (houtput : output = some name) (hname : name ≠ "")
      (h : medium.Writes disk name text (.ok (.ok ())) disk') :
      Ends settings disk output medium (.ok source)
        (.ok ⟨.ok ⟨text, output⟩, settings.warned (.ok source), some p⟩) disk'

end Settings

namespace Session

theorem session_tokens (s : Session) (source : String) : (s.tokens source).2 =
    ⟨s.settings, s.warnings ++ (Scan.ofText source.toList).kept⟩ := by
  unfold tokens Scan.kept
  dsimp only
  split <;> simp [*]

theorem scanned_eq (s : Session) (source : String) :
    s.scanned source = ⟨s.settings, s.settings.warned (.ok source)⟩ :=
  session_tokens { s with warnings := s.settings.warnings } source

theorem reprint_ends (s : Session) (disk : Disk) (source : String) (output : Option String)
    (medium : Medium := {}) :
    let run := s.reprint disk source output medium
    run.session = s.scanned source ∧
      s.settings.Ends disk output medium (.ok source) run.report run.disk := by
  have hwarned : (s.scanned source).warnings = s.settings.warned (.ok source) := by
    rw [scanned_eq]
  cases htokens : (Scan.ofText source.toList).result with
  | error failure =>
      rw [reprint_of_scan_error htokens, hwarned]
      exact ⟨rfl, .scanning (Program.ofText_of_scan_error _ htokens)⟩
  | ok tokens =>
      have hsource := Program.ofText_of_result s.settings.limits htokens
      cases hprogram : Program.ofTokens s.settings.limits tokens with
      | error e =>
          rw [hprogram] at hsource
          rw [reprint_of_parse_error htokens hprogram, hwarned]
          exact ⟨rfl, .parsing hsource⟩
      | ok p =>
          rw [hprogram] at hsource
          cases htext : s.text p.toNode with
          | error fault =>
              rw [reprint_of_print_error htokens hprogram htext, hwarned]
              exact ⟨rfl, .printing hsource (text_eq_error_iff.1 htext)⟩
          | ok text =>
              obtain ⟨hfault, htext'⟩ := text_eq_ok_iff.1 htext
              have hprints : s.settings.Prints source p text :=
                ⟨hsource, by rw [← hfault, ← htext']⟩
              rcases output_cases output with hnone | ⟨name, rfl, hname⟩
              · rw [reprint_of_text htokens hprogram htext hnone, hwarned]
                exact ⟨rfl, .told hprints hnone⟩
              · rw [reprint_of_name htokens hprogram htext hname, hwarned]
                have hwrites := medium.writes disk name text
                generalize medium.write disk name text = written at hwrites ⊢
                obtain ⟨_ | _ | _, disk'⟩ := written
                · exact ⟨rfl, .stopped hprints rfl hname hwrites⟩
                · exact ⟨rfl, .writing hprints rfl hname hwrites⟩
                · exact ⟨rfl, .written hprints rfl hname hwrites⟩

theorem reprintFile_ends (s : Session) {disk : Disk} {path : String}
    {source : Except ReadFault String} (h : disk.source path = .ok source)
    (output : Option String) (space : Option Nat := none) :
    let run := s.reprintFile disk path output space
    s.settings.Ends disk output { space } source run.report run.disk := by
  rw [reprintFile_eq, h]
  cases source with
  | error fault => exact .reading fault
  | ok source => exact (s.reprint_ends disk source output { space }).2

end Session

/-! ## Reports -/

def Failure.heading : Failure → String
  | .reading _ => "Failed to read source file: "
  | .scanning _ => "Lexical analysis failed: "
  | .parsing _ => "Syntax analysis failed: "
  | .printing _ => "Unparsing failed: "
  | .writing _ => "Failed to write output file: "

theorem Failure.heading_isPrefix_message (failure : Failure) :
    failure.heading.toList <+: failure.message.toList := by
  cases failure <;> exact ⟨_, (String.toList_append ..).symm⟩

namespace Settings.Ends

variable {settings : Settings} {disk disk' : Disk} {output : Option String} {medium : Medium}
  {source : Except ReadFault String} {report : Report}

theorem program_iff (h : settings.Ends disk output medium source (.ok report) disk') (p : Program) :
    report.program = some p ↔
      ∃ text, source = .ok text ∧ Program.ofText settings.limits text = .ok p := by
  cases h with
  | reading => simp
  | scanning h => simp [h]
  | parsing h => simp [h]
  | printing hp => simp [hp]
  | writing hprints => simp [hprints.program]
  | told hprints => simp [hprints.program]
  | written hprints => simp [hprints.program]

theorem prints_of_text (h : settings.Ends disk output medium source (.ok report) disk')
    {printed : String} (htext : report.text? = some printed) : ∃ text p, source = .ok text ∧
      settings.Prints text p printed ∧ report.program = some p := by
  cases h with
  | told hprints =>
      cases htext
      exact ⟨_, _, rfl, hprints, rfl⟩
  | written hprints =>
      cases htext
      exact ⟨_, _, rfl, hprints, rfl⟩
  | _ => cases htext

/-- A run of which no writing can fail succeeds if the source is read, scanned, parsed and printed
and the file that is named, if one is, can be written. -/
theorem succeeded_iff {report : Except Escape Report}
    (h : settings.Ends disk output {} source report disk') :
    (∃ told, report = .ok told ∧ told.succeeded = true) ↔
      (∃ text p printed, source = .ok text ∧ settings.Prints text p printed) ∧
        disk.Takes output := by
  constructor
  · rintro ⟨told, rfl, hok⟩
    cases h with
    | told hprints hnone =>
        exact ⟨⟨_, _, _, rfl, hprints⟩, Session.takes_of_unnamed hnone⟩
    | written hprints houtput _ hwrites =>
        refine ⟨⟨_, _, _, rfl, hprints⟩, fun name hname _ => ?_⟩
        cases Option.some.inj (hname.symm.trans houtput)
        exact Disk.write_of_write hwrites.write_eq
    | _ => cases hok
  · rintro ⟨⟨text, p, printed, rfl, hprints⟩, htakes⟩
    have hwritten : ∀ {name text : String} {written disk'}, output = some name → name ≠ "" →
        ({} : Medium).Writes disk name text written disk' → written = .ok (.ok ()) := by
      intro name text written disk' houtput hname hwrites
      obtain ⟨behind, hwrite⟩ := htakes name houtput hname (Text.Utf8.encode text.toList)
      exact hwrites.eq_of_write hwrite
    cases h with
    | scanning hfails => cases hfails.symm.trans hprints.program
    | parsing hfails => cases hfails.symm.trans hprints.program
    | printing hp hfails =>
        cases hp.symm.trans hprints.program
        rw [hprints.text] at hfails
        cases hfails
    | writing _ houtput hname hwrites => cases hwritten houtput hname hwrites
    | stopped _ houtput hname hwrites => cases hwritten houtput hname hwrites
    | told => exact ⟨_, rfl, rfl⟩
    | written => exact ⟨_, rfl, rfl⟩

theorem unchanged (h : settings.Ends disk output medium source (.ok report) disk')
    (hnone : (report.succeeded = false ∧ report.result ≠ .error (.writing .noSpace)) ∨
      output = none ∨ output = some "") : disk' = disk := by
  cases h with
  | written _ houtput hname =>
      rcases hnone with ⟨hfailed, -⟩ | hnone
      · cases hfailed
      · exact absurd hnone (Session.not_unnamed houtput hname)
  | writing _ houtput hname hwrites =>
      rcases hnone with ⟨-, hother⟩ | hnone
      · exact hwrites.unchanged fun hfault => hother (by rw [hfault])
      · exact absurd hnone (Session.not_unnamed houtput hname)
  | _ => rfl

theorem result_ne_noSpace (h : settings.Ends disk output {} source (.ok report) disk') :
    report.result ≠ .error (.writing .noSpace) := by
  cases h with
  | writing _ _ _ hwrites =>
      rintro ⟨⟩
      cases hwrites with
      | cut _ hspace => cases hspace
  | _ => exact nofun

theorem replaced (h : settings.Ends disk output medium source (.ok report) disk')
    {text name : String} (htext : report.text? = some text) (houtput : output = some name)
    (hname : name ≠ "") : disk.Replaced name (Text.Utf8.encode text.toList) disk' := by
  cases h with
  | told _ hnone => exact absurd hnone (Session.not_unnamed houtput hname)
  | written _ hother _ hwrites =>
      cases htext
      cases Option.some.inj (houtput.symm.trans hother)
      exact Disk.replaced_of_write hwrites.write_eq
  | _ => cases htext

end Settings.Ends

/-- The first bytes of a text that was printed stand in the file that is named, and no others. -/
structure Settings.Cuts (settings : Settings) (disk : Disk) (output : Option String)
    (source : Except ReadFault String) (disk' : Disk) (text : String) (n : Nat) : Prop where
  short : n < (Text.Utf8.encode text.toList).length
  prints : ∃ source' p, source = .ok source' ∧ settings.Prints source' p text
  replaced : ∃ name, output = some name ∧
    disk.Replaced name ((Text.Utf8.encode text.toList).take n) disk'

/-- A report is of one piece, and it agrees with the source and with the files behind the run. -/
structure Report.Coherent (report : Report) (settings : Settings) (disk : Disk)
    (output : Option String) (medium : Medium) (source : Except ReadFault String)
    (disk' : Disk) : Prop where
  errors : report.succeeded = true ↔ report.errors = []
  text : report.succeeded = true ↔ ∃ text, report.text? = some text
  failure : report.succeeded = false → ∃ failure, report.errors = [failure.message] ∧
    failure.heading.toList <+: failure.message.toList ∧
    settings.Ends disk output medium source
      (.ok ⟨.error failure, report.warnings, report.program⟩) disk'
  program : ∀ p, report.program = some p ↔
    ∃ text, source = .ok text ∧ Program.ofText settings.limits text = .ok p
  unchanged : (report.succeeded = false ∧ report.result ≠ .error (.writing .noSpace)) ∨
    output = none ∨ output = some "" → disk' = disk
  cut : report.result = .error (.writing .noSpace) →
    ∃ text n, medium.space = some n ∧ settings.Cuts disk output source disk' text n
  replaced : ∀ text name, report.text? = some text → output = some name → name ≠ "" →
    disk.Replaced name (Text.Utf8.encode text.toList) disk'

namespace Settings.Ends

variable {settings : Settings} {disk disk' : Disk} {output : Option String} {medium : Medium}
  {source : Except ReadFault String}

theorem cut {report : Report} (h : settings.Ends disk output medium source (.ok report) disk')
    (hresult : report.result = .error (.writing .noSpace)) :
    ∃ text n, medium.space = some n ∧ settings.Cuts disk output source disk' text n := by
  cases h with
  | writing hprints houtput _ hwrites =>
      cases hresult
      cases hwrites with
      | cut _ hspace hlong hwrite =>
          exact ⟨_, _, hspace, hlong, ⟨_, _, rfl, hprints⟩, _, houtput,
            Disk.replaced_of_write hwrite⟩
  | _ => cases hresult

theorem coherent {report : Report}
    (h : settings.Ends disk output medium source (.ok report) disk') :
    report.Coherent settings disk output medium source disk' := by
  obtain ⟨result, warnings, program⟩ := report
  refine ⟨?_, ?_, ?_, h.program_iff, h.unchanged, h.cut, fun _ _ => h.replaced⟩
  · cases result <;> simp [Report.succeeded, Report.errors, Except.isOk, Except.toBool]
  · cases result <;>
      simp [Report.succeeded, Report.text?, Except.isOk, Except.toBool, Except.toOption]
  · intro hfailed
    cases result with
    | ok product => cases hfailed
    | error failure => exact ⟨failure, rfl, failure.heading_isPrefix_message, h⟩

variable {report : Except Escape Report} (h : settings.Ends disk output medium source report disk')
  (houtput : ∀ name ∈ output, '\x00' ∉ name.toList)

include h houtput

/-- Without a null character in its name a file is only left without a report if the text cannot be
encoded; then it is empty. -/
theorem exists_report_or_cuts : (∃ told, report = .ok told) ∨ ∃ text fault,
    report = .error (.unencodable fault) ∧ medium.encode text = .error fault ∧
      settings.Cuts disk output source disk' text 0 := by
  cases h with
  | stopped hprints hsome _ hwrites =>
      cases hwrites with
      | nullInName hopen =>
          exact absurd (Disk.write_of_unopened hopen [])
            (Disk.write_ne_nullInName (houtput _ hsome))
      | unencodable hencode hwrite =>
          exact .inr ⟨_, _, rfl, hencode, Medium.encode_pos hencode, ⟨_, _, rfl, hprints⟩, _, hsome,
            Disk.replaced_of_write hwrite⟩
  | _ => exact .inl ⟨_, rfl⟩

theorem exists_report (hplain : ∀ c, medium.surrogate? c = none) : ∃ told, report = .ok told := by
  rcases h.exists_report_or_cuts houtput with htold | ⟨text, fault, -, hencode, -⟩
  · exact htold
  · cases hencode.symm.trans (Text.Utf8.encodeStrict_eq_ok fun c _ => hplain c)

end Settings.Ends

/-- Every run leaves a report of one piece.  It has succeeded if there are no errors, which is if
there is a text; otherwise there is one error, and it begins with the stage that failed.  The
program is there if the source was read, scanned and parsed.  A run that succeeds, with a name for a
file to write, changes that file alone: the name leads to the text then.  A run that fails leaves
all files as they were, unless the space runs out; then the name leads to as much of the text as
there was space for.  Only where the text holds an unpaired surrogate there is no report, and the
name leads to an empty file. -/
theorem reports_coherent (s : Session) (disk : Disk) (output : Option String)
    (houtput : ∀ name ∈ output, '\x00' ∉ name.toList) :
    (∀ source medium, let run := s.reprint disk source output medium
      (∃ report, run.report = .ok report ∧
        report.Coherent s.settings disk output medium (.ok source) run.disk) ∨
      ∃ text fault, (∃ c ∈ text.toList, medium.surrogate? c ≠ none) ∧
        run.report = .error (.unencodable fault) ∧
        s.settings.Cuts disk output (.ok source) run.disk text 0) ∧
    (∀ path space, '\x00' ∉ path.toList →
      let run := s.reprintFile disk path output space
      ∃ source report, disk.source path = .ok source ∧ run.report = .ok report ∧
        report.Coherent s.settings disk output { space } source run.disk) := by
  constructor
  · intro source medium run
    have hends : s.settings.Ends disk output medium (.ok source) run.report run.disk :=
      (s.reprint_ends disk source output medium).2
    rcases hends.exists_report_or_cuts houtput with
      ⟨report, hreport⟩ | ⟨text, fault, h, hencode, hcuts⟩
    · rw [hreport] at hends
      exact .inl ⟨report, hreport, hends.coherent⟩
    · exact .inr ⟨text, fault, Text.Utf8.encodeStrict_eq_error hencode, h, hcuts⟩
  · intro path space hpath run
    obtain ⟨source, hsource⟩ := disk.exists_source hpath
    have hends : s.settings.Ends disk output { space } source run.report run.disk :=
      s.reprintFile_ends hsource output space
    obtain ⟨report, hreport⟩ := hends.exists_report houtput fun _ => rfl
    rw [hreport] at hends
    exact ⟨source, report, hsource, hreport, hends.coherent⟩

private def inPlaceSession : Session := .start (.choose .unset none {})

private def spacedSource : String := "int  x;"

private def inPlaceTokens : List Token :=
  [⟨.keyword .int "int", ⟨1, 1⟩⟩, ⟨.name "x", ⟨1, 6⟩⟩, ⟨.symbol .semicolon ";", ⟨1, 7⟩⟩,
    .endOfInput ⟨1, 8⟩]

private def spacedProgram : Program :=
  ⟨[.variableDecl ⟨.primitive .int, ⟨"x", ⟨1, 6⟩⟩, ⟨1, 1⟩⟩], ⟨1, 1⟩⟩

private def spacedDisk : Disk := Disk.empty.put ["f"] (Text.Utf8.encode spacedSource.toList)

private theorem spacedDisk_source : spacedDisk.source "f" = .ok (.ok spacedSource) := by
  rw [Disk.source, spacedDisk, Disk.read_put_f rfl]
  decide

private theorem spacedSource_result :
    (Scan.ofText spacedSource.toList).result = .ok inPlaceTokens := by
  decide +kernel

private theorem inPlaceTokens_program :
    Program.ofTokens inPlaceSession.settings.limits inPlaceTokens = .ok spacedProgram := rfl

private theorem spacedProgram_text :
    inPlaceSession.text spacedProgram.toNode = .ok "int x;\n" := by
  decide

private theorem spaced_reprintFile (space : Option Nat) :
    inPlaceSession.reprintFile spacedDisk "f" (some "f") space =
      let (written, disk) := Medium.write { space } spacedDisk "f" "int x;\n"
      ⟨inPlaceSession.scanned spacedSource, disk, written.map fun
        | .ok _ => ⟨.ok ⟨"int x;\n", some "f"⟩, [], some spacedProgram⟩
        | .error fault => ⟨.error (.writing fault), [], some spacedProgram⟩⟩ := by
  have hwarnings : (inPlaceSession.scanned spacedSource).warnings = [] := by
    decide +kernel
  rw [Session.reprintFile_eq, spacedDisk_source]
  have hrun : inPlaceSession.reprint spacedDisk spacedSource (some "f") { space } = _ :=
    Session.reprint_of_name spacedSource_result inPlaceTokens_program spacedProgram_text (by decide)
  rw [hwarnings] at hrun
  exact hrun

theorem reports_coherent_in_place : ∃ report,
    (inPlaceSession.reprintFile spacedDisk "f" (some "f")).report = .ok report ∧
      report.text? = some "int x;\n" ∧ report.errors = [] ∧ report.program = some spacedProgram ∧
      spacedDisk.Replaced "f" (Text.Utf8.encode "int x;\n".toList)
        (inPlaceSession.reprintFile spacedDisk "f" (some "f")).disk := by
  have hnull : ∀ name ∈ some "f", '\x00' ∉ name.toList := by
    rintro _ ⟨⟩
    decide
  obtain ⟨_, report, -, hreport, hcoherent⟩ :=
    (reports_coherent inPlaceSession spacedDisk (some "f") hnull).2 "f" none (by decide)
  have hrun := spaced_reprintFile none
  rw [Medium.write_default (Disk.write_f rfl _)] at hrun
  obtain rfl := Except.ok.inj ((congrArg Run.report hrun).symm.trans hreport)
  exact ⟨_, hreport, rfl, hcoherent.errors.1 rfl, rfl,
    hcoherent.replaced _ _ rfl rfl (by decide)⟩

private def surrogateSource : String := "void g() \x7b cout << \"\uE000\"; \x7d"

private def surrogateTokens : List Token :=
  [⟨.keyword .void "void", ⟨1, 1⟩⟩, ⟨.name "g", ⟨1, 6⟩⟩, ⟨.symbol .leftParen "(", ⟨1, 7⟩⟩,
    ⟨.symbol .rightParen ")", ⟨1, 8⟩⟩, ⟨.symbol .leftCurly "\x7b", ⟨1, 10⟩⟩,
    ⟨.keyword .cout "cout", ⟨1, 12⟩⟩, ⟨.symbol .write "<<", ⟨1, 17⟩⟩,
    ⟨.string "\"\uE000\"", ⟨1, 20⟩⟩, ⟨.symbol .semicolon ";", ⟨1, 23⟩⟩,
    ⟨.symbol .rightCurly "\x7d", ⟨1, 25⟩⟩, .endOfInput ⟨1, 26⟩]

private def surrogateProgram : Program :=
  ⟨[.functionDecl ⟨.void, ⟨"g", ⟨1, 6⟩⟩, ⟨[], ⟨1, 7⟩⟩, ⟨.mk ⟨[], ⟨1, 12⟩⟩
    [.write (.string "\"\uE000\"" ⟨1, 20⟩) ⟨1, 12⟩] ⟨1, 12⟩, ⟨1, 10⟩⟩, ⟨1, 1⟩⟩], ⟨1, 1⟩⟩

private def surrogateText : String := "void g() \x7b\n    cout << \"\uE000\";\n\x7d\n\n"

private def surrogateMedium : Medium where
  surrogate? c := if c = '\uE000' then some 0xD800 else none

private theorem surrogate_reprint :
    inPlaceSession.reprint .empty surrogateSource (some "f") surrogateMedium =
      ⟨inPlaceSession.scanned surrogateSource, Disk.empty.put ["f"] [],
        .error (.unencodable ⟨24, 25, 0xD800⟩)⟩ := by
  have htokens : (Scan.ofText surrogateSource.toList).result = .ok surrogateTokens := by
    decide +kernel
  have hprogram : Program.ofTokens inPlaceSession.settings.limits surrogateTokens =
    .ok surrogateProgram := rfl
  have htext : inPlaceSession.text surrogateProgram.toNode = .ok surrogateText := by
    decide
  have hencode : surrogateMedium.encode surrogateText = .error ⟨24, 25, 0xD800⟩ := by
    decide
  rw [Session.reprint_of_name htokens hprogram htext (by decide), Medium.write,
    Disk.openEmpty_f rfl]
  dsimp only
  rw [hencode]
  rfl

/-- Two runs that do not succeed and still change a file.  One has no space for the text and empties
the file that its source was read from; the other one makes a file for a text with an unpaired
surrogate, and leaves no report. -/
theorem failed_runs_change_files :
    (∃ report,
      (inPlaceSession.reprintFile spacedDisk "f" (some "f") (some 0)).report = .ok report ∧
        report.errors = ["Failed to write output file: [Errno 28] No space left on device"] ∧
        spacedDisk.read "f" = .ok (Text.Utf8.encode spacedSource.toList) ∧
        (inPlaceSession.reprintFile spacedDisk "f" (some "f") (some 0)).disk.read "f" = .ok []) ∧
    let run := inPlaceSession.reprint .empty surrogateSource (some "f") surrogateMedium
    run.report = .error (.unencodable ⟨24, 25, 0xD800⟩) ∧
      Disk.empty.changes run.disk = [(["f"], [])] := by
  have hlong : 0 < (Text.Utf8.encode "int x;\n".toList).length := by decide
  have hwrite : Medium.write { space := some 0 } spacedDisk "f" "int x;\n" =
      (.ok (.error .noSpace), spacedDisk.put ["f"] []) := by
    rw [Medium.write, Disk.openEmpty_f rfl]
    dsimp only
    rw [Medium.encode, Text.Utf8.encodeStrict_eq_ok fun _ _ => rfl]
    dsimp only
    rw [Disk.fill_of_long hlong, Disk.put_put]
    rfl
  rw [spaced_reprintFile, hwrite, surrogate_reprint]
  exact ⟨⟨_, rfl, by decide, Disk.read_put_f rfl _, Disk.read_put_f rfl []⟩, rfl,
    by decide⟩

end Cmm

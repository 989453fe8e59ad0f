import Cmm.Command
import Cmm.Proofs.Session.Warnings
import Cmm.Proofs.Text.Quoted

/-!
# What the command delivers

The command runs one session over one file.  With the outline asked for, the session writes nothing
and the command itself writes the outline; otherwise the session writes the text.  Either way one
product is delivered in one place, or nothing is, and the errors are told.
-/

namespace Cmm

/-! ## Warnings -/

theorem Text.printable_locate {message : String} (h : Text.Printable message.toList)
    (p : Position) : Text.Printable (locate message p).toList := by
  have hat : Text.Printable " at ".toList := Text.printable_of_all (by decide)
  have hcolon : Text.Printable ":".toList := Text.printable_of_all (by decide)
  have hposition : p.text = toString p.line ++ ":" ++ toString p.column := rfl
  simp only [locate, hposition, String.toList_append, Text.printable_append]
  exact ⟨⟨h, hat⟩, ⟨Text.printable_toString _, hcolon⟩, Text.printable_toString _⟩

theorem Warning.printable_message (w : Warning) : Text.Printable w.message.toList := by
  have hlarge : Text.Printable "Integer literal too large; using max value".toList :=
    Text.printable_of_all (by decide)
  have hignoring : Text.Printable "Ignoring PYCMM_TAB_WIDTH=".toList :=
    Text.printable_of_all (by decide)
  have hinteger : Text.Printable ": not an integer; using ".toList :=
    Text.printable_of_all (by decide)
  cases w with
  | numberTooLarge p => exact Text.printable_locate hlarge p
  | badTabWidth setting used =>
      have hmessage : (Warning.badTabWidth setting used).message = "Ignoring PYCMM_TAB_WIDTH=" ++
          Text.quoted setting ++ ": not an integer; using " ++ toString used := rfl
      simp only [hmessage, String.toList_append, Text.printable_append]
      exact ⟨⟨⟨hignoring, Text.printable_quoted _⟩, hinteger⟩, Text.printable_toString _⟩

/-! ## Outcomes -/

/-- A product was delivered: to the file that is named, or else to the standard output. -/
structure Outcome.Delivers (outcome : Outcome) (disk : Disk) (output : Option String)
    (product : String) : Prop where
  ending : outcome.ending = .exit 0
  told : output = none ∨ output = some "" → outcome.stdout = product ∧ outcome.disk = disk
  written : ∀ name, output = some name → name ≠ "" → outcome.stdout = "" ∧
    disk.Replaced name (Text.Utf8.encode product.toList) outcome.disk

/-- Nothing was delivered, and the standard output tells why. -/
structure Outcome.Refuses (outcome : Outcome) (disk : Disk) : Prop where
  ending : outcome.ending = .exit 1
  disk : outcome.disk = disk
  stdout : "Error:".toList <+: outcome.stdout.toList

namespace Outcome

variable {disk disk' : Disk} {output : Option String} {product name stderr : String}

theorem delivers_told (houtput : output = none ∨ output = some "") :
    (⟨.exit 0, product, stderr, disk⟩ : Outcome).Delivers disk output product where
  ending := rfl
  told _ := ⟨rfl, rfl⟩
  written _ hname hne := absurd houtput (Session.not_unnamed hname hne)

theorem delivers_written (hname : name ≠ "")
    (h : disk.Replaced name (Text.Utf8.encode product.toList) disk') :
    (⟨.exit 0, "", stderr, disk'⟩ : Outcome).Delivers disk (some name) product where
  ending := rfl
  told hnone := absurd hnone (Session.not_unnamed rfl hname)
  written other hother _ := by
    cases hother
    exact ⟨rfl, h⟩

theorem error_isPrefix {told : String} (h : "Error:".toList <+: told.toList) (more : String) :
    "Error:".toList <+: (told ++ more).toList := by
  rw [String.toList_append]
  exact h.trans (List.prefix_append _ _)

end Outcome

namespace Command

/-! ## The session of the command -/

def settings (options : Options) (environment : Option String) : Settings :=
  .choose options.tab environment {}

def sessionRun (options : Options) (environment : Option String) (disk : Disk) : Run :=
  (Session.start (settings options environment)).reprintFile disk options.source
    (if options.outline then none else options.output)

variable {options : Options} {environment : Option String} {disk : Disk}
  {warnings : List Warning} {program : Option Program}

theorem runOptions_of_failed {failure : Failure}
    (h : (sessionRun options environment disk).report = .ok ⟨.error failure, warnings, program⟩) :
    runOptions options environment disk =
      ⟨.exit 1, errorLines [failure.message], warningLines warnings,
        (sessionRun options environment disk).disk⟩ := by
  unfold sessionRun settings at h ⊢
  unfold runOptions
  dsimp only
  rw [h]
  rfl

section Printed

variable {product : Product} {p : Program}
  (h : (sessionRun options environment disk).report = .ok ⟨.ok product, warnings, some p⟩)

include h

theorem runOptions_of_printed : runOptions options environment disk =
    let stderr := warningLines warnings
    let disk := (sessionRun options environment disk).disk
    if options.outline then
      deliverOutline (p.toNode.outline 0) stderr disk options.output
    else
      match options.output with
      | none | some "" => ⟨.exit 0, product.text, stderr, disk⟩
      | some _ => ⟨.exit 0, "", stderr, disk⟩ := by
  unfold sessionRun settings at h ⊢
  unfold runOptions
  dsimp only
  rewrite [h]
  rfl

theorem runOptions_of_outline (houtline : options.outline = true) :
    runOptions options environment disk =
      deliverOutline (p.toNode.outline 0) (warningLines warnings)
        (sessionRun options environment disk).disk options.output := by
  rw [runOptions_of_printed h]
  exact if_pos houtline

section Text

variable (houtline : options.outline = false)

include houtline

theorem runOptions_of_unnamed (houtput : options.output = none ∨ options.output = some "") :
    runOptions options environment disk =
      ⟨.exit 0, product.text, warningLines warnings,
        (sessionRun options environment disk).disk⟩ := by
  rw [runOptions_of_printed h, houtline]
  rcases houtput with houtput | houtput
  · rw [houtput]
    rfl
  · rw [houtput]
    rfl

theorem runOptions_of_name {name : String} (houtput : options.output = some name)
    (hname : name ≠ "") : runOptions options environment disk =
      ⟨.exit 0, "", warningLines warnings, (sessionRun options environment disk).disk⟩ := by
  rw [runOptions_of_printed h, houtline, houtput]
  dsimp only
  rw [if_neg Bool.false_ne_true]
  split
  · cases ‹some name = none›
  · exact absurd (Option.some.inj ‹_›) hname
  · rfl

end Text

end Printed

/-! ## The outline -/

section Outline

variable {outline stderr : String} {output : Option String}

theorem deliverOutline_stderr :
    (deliverOutline outline stderr disk output).stderr = stderr := by
  unfold deliverOutline
  split
  · rfl
  · rfl
  · dsimp only
    split <;> rfl

theorem deliverOutline_of_unnamed (houtput : output = none ∨ output = some "") :
    deliverOutline outline stderr disk output = ⟨.exit 0, outline, stderr, disk⟩ := by
  rcases houtput with rfl | rfl
  · rfl
  · rfl

theorem deliverOutline_of_name {name : String} (hname : name ≠ "") :
    deliverOutline outline stderr disk (some name) =
      let (written, disk) := Medium.write {} disk name outline
      match written with
      | .ok (.ok _) => ⟨.exit 0, "", stderr, disk⟩
      | .ok (.error fault) =>
        ⟨.exit 1, s!"Error: cannot write {name}: {fault.message}\n", stderr, disk⟩
      | .error escape => ⟨.stopped escape, "", stderr, disk⟩ := by
  unfold deliverOutline
  split
  · cases ‹some name = none›
  · exact absurd (Option.some.inj ‹_›) hname
  · rename_i hother
    cases hother
    rfl

theorem deliverOutline_of_takes (h : disk.Takes output) :
    (deliverOutline outline stderr disk output).Delivers disk output outline := by
  rcases Session.output_cases output with hnone | ⟨name, rfl, hname⟩
  · rw [deliverOutline_of_unnamed hnone]
    exact Outcome.delivers_told hnone
  · obtain ⟨disk', hwrite⟩ := h name rfl hname (Text.Utf8.encode outline.toList)
    rw [deliverOutline_of_name hname, Medium.write_default hwrite]
    exact Outcome.delivers_written hname (Disk.replaced_of_write hwrite)

theorem deliverOutline_of_not_takes (houtput : ∀ name ∈ output, '\x00' ∉ name.toList)
    (h : ¬disk.Takes output) : (deliverOutline outline stderr disk output).Refuses disk := by
  rcases Session.output_cases output with hnone | ⟨name, rfl, hname⟩
  · exact absurd (Session.takes_of_unnamed hnone) h
  · rw [deliverOutline_of_name hname]
    have hwrites := ({} : Medium).writes disk name outline
    generalize ({} : Medium).write disk name outline = written at hwrites ⊢
    obtain ⟨written, disk'⟩ := written
    cases hwrites with
    | whole _ _ hwrite =>
        refine absurd ?_ h
        rintro _ ⟨⟩ -
        exact Disk.write_of_write hwrite
    | unopened =>
        have hheading : "Error:".toList <+: "Error: cannot write ".toList := by decide
        exact ⟨rfl, rfl, Outcome.error_isPrefix (Outcome.error_isPrefix
          (Outcome.error_isPrefix (Outcome.error_isPrefix hheading _) _) _) _⟩
    | nullInName hopen =>
        exact absurd (Disk.write_of_unopened hopen [])
          (Disk.write_ne_nullInName (houtput name rfl))
    | unencodable hencode => cases hencode.symm.trans (Medium.encode_default outline)
    | cut _ hspace => cases hspace

end Outline

/-! ## All or nothing -/

/-- What is made of a source that is read, scanned, parsed and printed: the outline of its tree, or
the text. -/
def Makes (options : Options) (settings : Settings) (disk : Disk) (product : String) : Prop :=
  ∃ source p text, disk.source options.source = .ok (.ok source) ∧
    settings.Prints source p text ∧
    product = if options.outline then p.toNode.outline 0 else text

/-- Either one product is delivered, or nothing is.  It is delivered if it can be made, and the file
that is named, if one is, can be written. -/
structure Settles (options : Options) (settings : Settings) (disk : Disk) (outcome : Outcome) :
    Prop where
  status : outcome.ending = .exit 0 ∨ outcome.ending = .exit 1
  succeeds : outcome.ending = .exit 0 ↔
    (∃ product, Makes options settings disk product) ∧ disk.Takes options.output
  delivers : outcome.ending = .exit 0 → ∃ product, Makes options settings disk product ∧
    outcome.Delivers disk options.output product
  refuses : outcome.ending = .exit 1 → outcome.Refuses disk

theorem Makes.unique {settings : Settings} {product other : String}
    (h : Makes options settings disk product) (hother : Makes options settings disk other) :
    product = other := by
  obtain ⟨source, p, text, hsource, hprints, rfl⟩ := h
  obtain ⟨source', p', text', hsource', hprints', rfl⟩ := hother
  obtain rfl := Except.ok.inj (Except.ok.inj (hsource.symm.trans hsource'))
  obtain rfl := Except.ok.inj (hprints.program.symm.trans hprints'.program)
  obtain rfl : text = text' := congrArg Layout.Printed.text (hprints.text.symm.trans hprints'.text)
  rfl

section Settles

variable {settings : Settings} {outcome : Outcome}

theorem settles_of_delivers {product : String} (hmakes : Makes options settings disk product)
    (htakes : disk.Takes options.output) (h : outcome.Delivers disk options.output product) :
    Settles options settings disk outcome where
  status := .inl h.ending
  succeeds := ⟨fun _ => ⟨⟨product, hmakes⟩, htakes⟩, fun _ => h.ending⟩
  delivers _ := ⟨product, hmakes, h⟩
  refuses hone := by
    rw [h.ending] at hone
    cases hone

theorem settles_of_refuses
    (hnone : ¬((∃ product, Makes options settings disk product) ∧ disk.Takes options.output))
    (h : outcome.Refuses disk) : Settles options settings disk outcome where
  status := .inr h.ending
  succeeds := by
    refine ⟨fun hzero => ?_, fun hsome => absurd hsome hnone⟩
    rw [h.ending] at hzero
    cases hzero
  delivers hzero := by
    rw [h.ending] at hzero
    cases hzero
  refuses _ := h

end Settles

/-! ## Runs -/

theorem sessionRun_ends (options : Options) (environment : Option String)
    {source : Except ReadFault String} (hsource : disk.source options.source = .ok source) :
    (settings options environment).Ends disk (if options.outline then none else options.output)
      {} source (sessionRun options environment disk).report
      (sessionRun options environment disk).disk :=
  (Session.start (settings options environment)).reprintFile_ends hsource _

section Source

variable {source : Except ReadFault String}
  (hsource : disk.source options.source = .ok source)

include hsource

theorem settles_of_failed {failure : Failure}
    (h : (sessionRun options environment disk).report = .ok ⟨.error failure, warnings, program⟩) :
    Settles options (settings options environment) disk
      (runOptions options environment disk) := by
  have hends := sessionRun_ends options environment hsource
  have hfailed : ¬∃ told, (sessionRun options environment disk).report = .ok told ∧
      told.succeeded = true := by
    rintro ⟨told, htold, hok⟩
    cases h.symm.trans htold
    cases hok
  rw [runOptions_of_failed h]
  refine settles_of_refuses ?_ ⟨rfl, ?_, ?_⟩
  · rintro ⟨⟨_, text, p, printed, htext, hprints, -⟩, htakes⟩
    refine hfailed (hends.succeeded_iff.2 ⟨⟨text, p, printed, ?_, hprints⟩, ?_⟩)
    · exact Except.ok.inj (hsource.symm.trans htext)
    · split
      · exact Session.takes_of_unnamed (.inl rfl)
      · exact htakes
  · rw [h] at hends
    exact hends.unchanged (.inl ⟨rfl, hends.result_ne_noSpace⟩)
  · have hheading : "Error:".toList <+: "Error: ".toList := by decide
    have herrors : errorLines [failure.message] = "Error: " ++ failure.message ++ "\n" := by
      simp [errorLines, String.join]
    rw [herrors]
    exact Outcome.error_isPrefix (Outcome.error_isPrefix hheading _) _

theorem settles_of_succeeded {product : Product}
    (houtput : ∀ name ∈ options.output, '\x00' ∉ name.toList)
    (h : (sessionRun options environment disk).report = .ok ⟨.ok product, warnings, program⟩) :
    Settles options (settings options environment) disk (runOptions options environment disk) ∧
      (runOptions options environment disk).stderr = warningLines warnings := by
  have hends := sessionRun_ends options environment hsource
  rw [h] at hends
  obtain ⟨text, p, rfl, hprints, hp⟩ := hends.prints_of_text rfl
  cases hp
  have hmakes : Makes options (settings options environment) disk
      (if options.outline then p.toNode.outline 0 else product.text) :=
    ⟨text, p, product.text, hsource, hprints, rfl⟩
  cases houtline : options.outline with
  | true =>
      rw [houtline] at hends hmakes
      rw [runOptions_of_outline h houtline, hends.unchanged (.inr (.inl rfl))]
      refine ⟨?_, deliverOutline_stderr⟩
      by_cases htakes : disk.Takes options.output
      · exact settles_of_delivers hmakes htakes (deliverOutline_of_takes htakes)
      · exact settles_of_refuses (fun hall => htakes hall.2)
          (deliverOutline_of_not_takes houtput htakes)
  | false =>
      -- the session has written the text already, if it was to be written
      rw [houtline] at hends hmakes
      have htakes := (hends.succeeded_iff.1 ⟨_, rfl, rfl⟩).2
      rcases Session.output_cases options.output with hnone | ⟨name, hname, hne⟩
      · rw [runOptions_of_unnamed h houtline hnone, hends.unchanged (.inr hnone)]
        exact ⟨settles_of_delivers hmakes htakes (Outcome.delivers_told hnone), rfl⟩
      · rw [runOptions_of_name h houtline hname hne]
        refine ⟨settles_of_delivers hmakes htakes ?_, rfl⟩
        rw [hname]
        exact Outcome.delivers_written hne (hends.replaced rfl hname hne)

end Source

theorem runOptions_settles (environment : Option String) (disk : Disk)
    (hsource : '\x00' ∉ options.source.toList)
    (houtput : ∀ name ∈ options.output, '\x00' ∉ name.toList) :
    ∃ report, (sessionRun options environment disk).report = .ok report ∧
      Settles options (settings options environment) disk (runOptions options environment disk) ∧
      (runOptions options environment disk).stderr = warningLines report.warnings := by
  obtain ⟨source, hread⟩ := disk.exists_source hsource
  have hends := sessionRun_ends options environment hread
  obtain ⟨⟨result, warnings, program⟩, hreport⟩ := hends.exists_report (fun name hname => by
    split at hname
    · cases hname
    · exact houtput name hname) fun _ => rfl
  refine ⟨_, hreport, ?_⟩
  cases result with
  | ok product => exact settles_of_succeeded hread houtput hreport
  | error failure =>
      refine ⟨settles_of_failed hread hreport, ?_⟩
      rw [runOptions_of_failed hreport]

end Command

private def returnSource : String := "int f()\x7breturn 3000000000;\x7d"

private def returnProgram : Program :=
  ⟨[.functionDecl ⟨.int, ⟨"f", ⟨1, 5⟩⟩, ⟨[], ⟨1, 6⟩⟩, ⟨.mk ⟨[], ⟨1, 9⟩⟩
    [.returnValue (some (.number 2147483647 ⟨1, 16⟩)) ⟨1, 9⟩] ⟨1, 9⟩, ⟨1, 8⟩⟩, ⟨1, 1⟩⟩], ⟨1, 1⟩⟩

private def returnTokens : List Token :=
  [⟨.keyword .int "int", ⟨1, 1⟩⟩, ⟨.name "f", ⟨1, 5⟩⟩, ⟨.symbol .leftParen "(", ⟨1, 6⟩⟩,
    ⟨.symbol .rightParen ")", ⟨1, 7⟩⟩, ⟨.symbol .leftCurly "\x7b", ⟨1, 8⟩⟩,
    ⟨.keyword .returnWord "return", ⟨1, 9⟩⟩, ⟨.number 2147483647, ⟨1, 16⟩⟩,
    ⟨.symbol .semicolon ";", ⟨1, 26⟩⟩, ⟨.symbol .rightCurly "\x7d", ⟨1, 27⟩⟩,
    .endOfInput ⟨1, 28⟩]

private def returnOutline : String :=
  "Program\n  DeclList\n    FnDecl\n      IntType\n      Identifier(f)\n      FormalsList\n" ++
  "      FnBody\n        DeclList\n        StmtList\n          ReturnStmt\n" ++
  "            IntLiteral(2147483647)\n"

private def returnDisk : Disk := Disk.empty.put ["f"] (Text.Utf8.encode returnSource.toList)

private def inPlaceOptions : Options := ⟨"f", some "f", .unset, true⟩

private def widthWarning : Settings := .choose .unset (some "two") {}

theorem returnDisk_source : returnDisk.source "f" = .ok (.ok returnSource) := by
  rw [Disk.source, returnDisk, Disk.read_put_f rfl]
  decide

theorem makes_returnOutline :
    Command.Makes inPlaceOptions widthWarning returnDisk returnOutline := by
  have htokens : (Scan.ofText returnSource.toList).result = .ok returnTokens := by
    decide +kernel
  have hprogram : Program.ofTokens widthWarning.limits returnTokens = .ok returnProgram := rfl
  have hsource : Program.ofText widthWarning.limits returnSource = .ok returnProgram := by
    have hparsed := Program.ofText_of_result widthWarning.limits htokens
    rw [hparsed, hprogram]
    rfl
  have htext : returnProgram.toNode.printWith widthWarning.room widthWarning.tabWidth =
      ⟨"int f() \x7b\n    return 2147483647;\n\x7d\n\n", none⟩ := by
    decide
  refine ⟨returnSource, returnProgram, _, returnDisk_source, ⟨hsource, htext⟩, ?_⟩
  have houtline : returnProgram.toNode.outline 0 = returnOutline := by
    decide +kernel
  exact houtline.symm

end Cmm

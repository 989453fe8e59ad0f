import Cmm.Proofs.Session.Sequence
import Cmm.Proofs.Token.Concatenation

/-!
# The warnings of a run

A report has the warnings of the settings and those of the scan of its source, however the run ends
and whatever went before.  Only where a numeral ends the scan that cannot be read, those of the scan
are lost.
-/

namespace Cmm

theorem Settings.Ends.warnings_eq {settings : Settings} {disk disk' : Disk} {output : Option String}
    {medium : Medium} {source : Except ReadFault String} {report : Report}
    (h : settings.Ends disk output medium source (.ok report) disk') :
    report.warnings = settings.warned source := by
  cases h <;> rfl

/-- Behind any actions, a run over a source leaves a report unless the name of the file to write
holds a null character.  Its warnings are those of the settings and then all those that the scanner
had recorded, if the scan came to its end, and none but those of the settings if it did not. -/
theorem warnings_told (settings : Settings) (disk : Disk) (actions : List Session.Action)
    (source : String) (output : Option String) :
    let state := Session.reached settings disk actions
    let answer := (Session.perform state (.reprint source output)).1
    ((∀ name ∈ output, '\x00' ∉ name.toList) → ∃ report, answer = .report (.ok report)) ∧
    ∀ report, answer = .report (.ok report) →
      (∀ tokens, (Scan.ofText source.toList).tokens = .ok tokens →
        report.warnings = settings.warnings ++ (Scan.ofText source.toList).warnings) ∧
      (∀ e, (Scan.ofText source.toList).tokens = .error e →
        report.warnings = settings.warnings) := by
  intro state answer
  have hsettings : state.1.settings = settings := Session.settings_reached settings disk actions
  have hends := (state.1.reprint_ends state.2 source output).2
  have hanswer : answer = .report (state.1.reprint state.2 source output).report := rfl
  rw [hsettings] at hends
  constructor
  · intro houtput
    obtain ⟨report, hreport⟩ := hends.exists_report houtput fun _ => rfl
    exact ⟨report, hanswer.trans (congrArg _ hreport)⟩
  · intro report hreport
    rw [Session.Answer.report.inj (hanswer.symm.trans hreport)] at hends
    have hwarnings : report.warnings = settings.warnings ++ (Scan.ofText source.toList).kept :=
      hends.warnings_eq
    refine ⟨fun tokens htokens => ?_, fun e he => ?_⟩
    · rw [hwarnings, Scan.kept_of_ok htokens]
    · rw [hwarnings, Scan.kept_of_error he, List.append_nil]

private def namedSettings : Settings := .choose .unset (some "two") {}

theorem warnings_told_of_error : ∃ report,
    (Session.perform (Session.reached namedSettings .empty [.tokens "4000000000"])
      (.reprint "3000000000 @" none)).1 = .report (.ok report) ∧
    report.warnings = [.badTabWidth "two" 4, .numberTooLarge ⟨1, 1⟩] := by
  have htokens : (Scan.ofText "3000000000 @".toList).tokens =
      .ok [⟨.number 2147483647, ⟨1, 1⟩⟩, .endOfInput ⟨1, 13⟩] := by
    decide +kernel
  have hwarnings : namedSettings.warnings ++ (Scan.ofText "3000000000 @".toList).warnings =
      [.badTabWidth "two" 4, .numberTooLarge ⟨1, 1⟩] := by
    decide +kernel
  have htold := warnings_told namedSettings .empty [.tokens "4000000000"] "3000000000 @" none
  obtain ⟨report, hreport⟩ := htold.1 nofun
  exact ⟨report, hreport, ((htold.2 report hreport).1 _ htokens).trans hwarnings⟩

/-! ## Warnings that are lost -/

theorem Scan.warnings_of_overlong {digits : List Char}
    (hdigits : ∀ c ∈ digits, c.isDigit = true) (hlong : Text.digitLimit < digits.length) :
    (ofText digits).warnings = [] := by
  have hsplit := Segment.split_of_overlong (s := ⟨digits, .blank⟩) ⟨hdigits, hlong⟩
  rw [warnings, ofText, hsplit]
  rfl

/-- A number with too many digits behind another text ends the scan after the warnings of that. -/
theorem Scan.append_overlong {front digits : List Char}
    (hfront : ∀ s ∈ Segment.split front, s.unreadable? = none)
    (hdigits : ∀ c ∈ digits, c.isDigit = true) (hlong : Text.digitLimit < digits.length) :
    (ofText (front ++ '\n' :: digits)).warnings = (ofText front).warnings ∧
      (ofText (front ++ '\n' :: digits)).tokens =
        .error (.tooManyDigits Text.digitLimit digits.length) := by
  have hsplit := Segment.split_of_overlong (s := ⟨digits, .blank⟩) ⟨hdigits, hlong⟩
  constructor
  · rw [warnings_append hfront, warnings_of_overlong hdigits hlong, List.map_nil, List.append_nil]
  · have hread : ∀ s ∈ ([] : List Segment), s.unreadable? = none := nofun
    rw [tokens_append hfront, tokens_of_unreadable hsplit hread rfl]
    rfl

theorem Session.exists_report_of_numeral {source : String} {e : NumeralError}
    (h : (Scan.ofText source.toList).tokens = .error e) (s : Session) (disk : Disk)
    (output : Option String) : ∃ report,
      (s.reprint disk source output).report = .ok report ∧
        report.warnings = s.settings.warnings := by
  have hresult : (Scan.ofText source.toList).result = .error (.numeral e) := by
    rw [Scan.result, h]
  refine ⟨_, congrArg Run.report (reprint_of_scan_error hresult), ?_⟩
  rw [scanned_eq, Settings.warned, Scan.kept_of_error h, List.append_nil]

private def lateSource : String :=
  String.ofList ("3000000000".toList ++ '\n' :: List.replicate 4301 '1')

theorem warnings_lost_behind_long_number : ∃ report,
    (Session.perform (Session.reached (.choose .unset none {}) .empty [])
      (.reprint lateSource none)).1 = .report (.ok report) ∧
    (Scan.ofText lateSource.toList).warnings = [.numberTooLarge ⟨1, 1⟩] ∧
    report.warnings = [] := by
  have hfront : ∀ s ∈ Segment.split "3000000000".toList, s.unreadable? = none := by
    decide +kernel
  have hdigits : ∀ c ∈ List.replicate 4301 '1', c.isDigit = true := by
    intro c hc
    rw [List.eq_of_mem_replicate hc]
    rfl
  have hlong : Text.digitLimit < (List.replicate 4301 '1').length := by
    rw [List.length_replicate]
    decide
  obtain ⟨hwarnings, htokens⟩ := Scan.append_overlong hfront hdigits hlong
  rw [← String.toList_ofList (l := "3000000000".toList ++ _)] at hwarnings htokens
  have hfirst : (Scan.ofText "3000000000".toList).warnings = [.numberTooLarge ⟨1, 1⟩] := by
    decide +kernel
  obtain ⟨report, hreport, hlost⟩ := Session.exists_report_of_numeral htokens
    (Session.start (.choose .unset none {})) .empty none
  exact ⟨report, congrArg Session.Answer.report hreport, hwarnings.trans hfirst, hlost⟩

end Cmm

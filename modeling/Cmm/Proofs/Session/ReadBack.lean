import Cmm.Proofs.Disk
import Cmm.Proofs.Node.Alike
import Cmm.Proofs.Program.RoundTrip
import Cmm.Proofs.Session.Reprint
import Cmm.Proofs.Text.Utf8
import Cmm.Proofs.Token.LineEnds

/-!
# Running over a file that was written

A text is written as it is, but the carriage returns of a file that is read end its lines.  So a
program that was written is read back unless a string literal holds a carriage return.
-/

namespace Cmm

/-! ## Printed texts -/

theorem Node.exists_printWith_eq {room : Int} {tab : Option Int} {n : Node}
    (h : (n.printWith room tab).fault = none) :
    ∃ width, n.printWith room tab = n.print width 0 := by
  cases tab with
  | some width => exact ⟨width, printAll_singleton h⟩
  | none =>
      rw [printWith] at h ⊢
      by_cases hflat : n.isFlat
      · rw [if_pos hflat] at h ⊢
        exact ⟨0, printAll_singleton h⟩
      · rw [if_neg hflat] at h
        cases h

def Program.HoldsReturn (p : Program) : Prop :=
  ∃ raw, Lexeme.string raw ∈ p.lexemes ∧ '\r' ∈ raw.toList

/-- The text of a program that was read spells the program. -/
theorem Program.spelled_of_text {s : Session} {limits : Limits} {source text : String} {p : Program}
    (hp : ofText limits source = .ok p) (htext : s.text p.toNode = .ok text) :
    Spelled text.toList p.lexemes fun _ => True := by
  obtain ⟨ls, hsites, hscannable⟩ := exists_builtFrom hp
  obtain ⟨hfault, rfl⟩ := Session.text_eq_ok_iff.1 htext
  obtain ⟨width, hprint⟩ := Node.exists_printWith_eq hfault
  have hspells := spells_program width 0 p fun x hx => (hsites x hx).scannable hscannable
  rw [hprint] at hfault ⊢
  have hfits : Layout.Fits (p.toNode.items width 0) := by
    refine Classical.byContradiction fun hfits => ?_
    have hwide : (p.toNode.print width 0).fault = _ := hspells.write_of_not_fits hfits
    rw [hfault] at hwide
    cases hwide
  have hwritten : p.toNode.print width 0 = _ := hspells.write hfits
  rw [hwritten, String.toList_ofList]
  exact hspells.spelled

/-- The text of a program that was read is read as the same program, and printed as it is, by a
session with the same settings. -/
theorem Session.text_reads_back {s t : Session} {source text : String} {p : Program}
    (ht : t.settings = s.settings) (hp : Program.ofText s.settings.limits source = .ok p)
    (htext : s.text p.toNode = .ok text)
    (hdepth : ∀ b e, (b, Site.expression e) ∈ p.sites →
      (b + 3 * e.height - 2 : Int) ≤ s.settings.limits.depth) :
    ∃ tokens q, (Scan.ofText text.toList).result = .ok tokens ∧
      Program.ofTokens t.settings.limits tokens = .ok q ∧ q.toNode.sameAs p.toNode = true ∧
      t.text q.toNode = .ok text := by
  obtain ⟨ls, hsites, hscannable⟩ := Program.exists_builtFrom hp
  have hroom : AllHaveRoom s.settings.limits p.sites := fun x hx =>
    (hsites x hx).hasRoom fun e he => hdepth x.1 e (he ▸ hx)
  obtain ⟨q, hq, hsame⟩ := Program.exists_ofText (Program.spelled_of_text hp htext) hroom
  obtain ⟨tokens, htokens, hq⟩ := Program.ofText_eq_ok_iff.1 hq
  refine ⟨tokens, q, htokens, by rwa [ht], hsame, ?_⟩
  rw [text_eq_ok_iff, ht, Node.printWith_eq_of_sameAs hsame]
  exact text_eq_ok_iff.1 htext

/-! ## Files -/

namespace Session

theorem sourceText_encode (text : String) : sourceText (Text.Utf8.encode text.toList) =
    .ok (String.ofList (Text.unifyLineEnds text.toList)) := by
  rw [sourceText, Text.Utf8.decode_encode]
  rfl

theorem reprintFile_of_read {s : Session} {disk : Disk} {path source : String}
    {bytes : List UInt8} {output : Option String} (h : disk.read path = .ok bytes)
    (hsource : sourceText bytes = .ok source) :
    s.reprintFile disk path output = s.reprint disk source output := by
  unfold reprintFile
  dsimp only
  rw [h]
  dsimp only
  rw [hsource]

end Session

/-- What a run that succeeds has written is read back as the same program, and printed as the same
text again, if no string literal holds a carriage return and no expression is too deep once it is
printed with parentheses.  Otherwise a line feed takes the place of the carriage return, and a run
over the file fails with its scan. -/
theorem written_reads_back {s t : Session} {disk : Disk} {source name : String} {report : Report}
    (h : (s.reprint disk source (some name)).report = .ok report) (hok : report.succeeded = true)
    (hname : name ≠ "") (ht : t.settings = s.settings) : ∃ p text,
      report.program = some p ∧ report.text? = some text ∧
      (¬p.HoldsReturn →
        (∀ b e, (b, Site.expression e) ∈ p.sites →
          (b + 3 * e.height - 2 : Int) ≤ s.settings.limits.depth) →
        ∃ again q, (t.reprintFile (s.reprint disk source (some name)).disk name none).report =
            .ok again ∧ again.result = .ok ⟨text, none⟩ ∧ again.program = some q ∧
          q.toNode.sameAs p.toNode = true ∧ again.warnings = s.settings.warnings) ∧
      (p.HoldsReturn → ∃ again failure,
        (t.reprintFile (s.reprint disk source (some name)).disk name none).report = .ok again ∧
          again.result = .error (.scanning failure)) := by
  obtain ⟨tokens, p, text, htokens, hp, htext, rfl, hwrite⟩ := Session.reprint_succeeded h hok
  have hread := Disk.read_of_write (hwrite name rfl hname)
  have hsource := Program.ofText_eq_ok_iff.2 ⟨tokens, htokens, hp⟩
  have hspelled := Program.spelled_of_text hsource htext
  have hfile : t.reprintFile _ name none = t.reprint _ _ none :=
    Session.reprintFile_of_read hread (Session.sourceText_encode text)
  refine ⟨p, text, rfl, rfl, fun hreturn hdepth => ?_, fun hreturn => ?_⟩
  · have hnone : '\r' ∉ text.toList := fun hmem => hreturn (hspelled.return_mem_iff.1 hmem)
    rw [Text.unifyLineEnds_eq_self hnone, String.ofList_toList] at hfile
    obtain ⟨tokens', q, htokens', hq, hsame, htext'⟩ :=
      Session.text_reads_back ht hsource htext hdepth
    have hagain := hfile.trans (Session.reprint_of_text htokens' hq htext' (.inl rfl))
    obtain ⟨-, hwarnings, -⟩ := scan_of_spelled hspelled
    refine ⟨_, q, congrArg Run.report hagain, rfl, rfl, hsame, ?_⟩
    rw [Session.warnings_scanned (Scan.result_eq_ok htokens').1, hwarnings, List.append_nil, ht]
  · obtain ⟨-, hclean⟩ := hspelled.split_eq
    obtain ⟨failure, hfailure⟩ :=
      exists_failure_of_return hclean (hspelled.return_mem_iff.2 hreturn)
    rw [← String.toList_ofList (l := Text.unifyLineEnds text.toList)] at hfailure
    have hagain := hfile.trans (Session.reprint_of_scan_error hfailure)
    exact ⟨_, failure, congrArg Run.report hagain, rfl⟩

theorem Disk.write_empty (bytes : List UInt8) :
    Disk.empty.write "f" bytes = .ok (Disk.empty.put ["f"] bytes) :=
  write_f rfl bytes

private def writingSession : Session := .start (.choose .unset none {})

private def writeSource (raw : String) : String := "void g() \x7b cout << " ++ raw ++ "; \x7d"

private def writeProgram (raw : String) : Program :=
  ⟨[.functionDecl ⟨.void, ⟨"g", ⟨1, 6⟩⟩, ⟨[], ⟨1, 7⟩⟩, ⟨.mk ⟨[], ⟨1, 12⟩⟩
    [.write (.string raw ⟨1, 20⟩) ⟨1, 12⟩] ⟨1, 12⟩, ⟨1, 10⟩⟩, ⟨1, 1⟩⟩], .start⟩

private def writeTokens (raw : String) (column : Int) : List Token :=
  [⟨.keyword .void "void", ⟨1, 1⟩⟩, ⟨.name "g", ⟨1, 6⟩⟩, ⟨.symbol .leftParen "(", ⟨1, 7⟩⟩,
    ⟨.symbol .rightParen ")", ⟨1, 8⟩⟩, ⟨.symbol .leftCurly "\x7b", ⟨1, 10⟩⟩,
    ⟨.keyword .cout "cout", ⟨1, 12⟩⟩, ⟨.symbol .write "<<", ⟨1, 17⟩⟩, ⟨.string raw, ⟨1, 20⟩⟩,
    ⟨.symbol .semicolon ";", ⟨1, column⟩⟩, ⟨.symbol .rightCurly "\x7d", ⟨1, column + 2⟩⟩,
    .endOfInput ⟨1, column + 3⟩]

theorem reprint_writeSource {raw text : String} {column : Int}
    (htokens : (Scan.ofText (writeSource raw).toList).result = .ok (writeTokens raw column))
    (htext : writingSession.text (writeProgram raw).toNode = .ok text) :
    writingSession.reprint .empty (writeSource raw) (some "f") =
      ⟨writingSession.scanned (writeSource raw),
        Disk.empty.put ["f"] (Text.Utf8.encode text.toList),
        .ok ⟨.ok ⟨text, some "f"⟩, (writingSession.scanned (writeSource raw)).warnings,
          some (writeProgram raw)⟩⟩ := by
  exact Session.reprint_of_write htokens rfl htext (by decide) (Disk.write_empty _)

theorem depth_writeProgram (raw : String) :
    ∀ b e, (b, Site.expression e) ∈ (writeProgram raw).sites →
      (b + 3 * e.height - 2 : Int) ≤ 250 := by
  intro b e he
  have he : (b, Site.expression e) ∈ [(0, Site.name ⟨"g", ⟨1, 6⟩⟩), (1, .block),
      (1, .expression (.string raw ⟨1, 20⟩))] := he
  obtain ⟨rfl, rfl⟩ : b = 1 ∧ e = .string raw ⟨1, 20⟩ := by simpa using he
  simp [Expr.height]

theorem written_reads_back_of_string : ∃ report again q,
    (writingSession.reprint .empty (writeSource "\"a\"") (some "f")).report = .ok report ∧
      (writingSession.reprintFile
        (writingSession.reprint .empty (writeSource "\"a\"") (some "f")).disk "f" none).report =
        .ok again ∧
      again.result = .ok ⟨"void g() \x7b\n    cout << \"a\";\n\x7d\n\n", none⟩ ∧
      report.program = some (writeProgram "\"a\"") ∧ again.program = some q ∧
      q.toNode.sameAs (writeProgram "\"a\"").toNode = true := by
  have htokens : (Scan.ofText (writeSource "\"a\"").toList).result =
      .ok (writeTokens "\"a\"" 23) := by
    decide +kernel
  have htext : writingSession.text (writeProgram "\"a\"").toNode =
      .ok "void g() \x7b\n    cout << \"a\";\n\x7d\n\n" := by
    decide
  have hreport := congrArg Run.report (reprint_writeSource htokens htext)
  have hreturn : ¬(writeProgram "\"a\"").HoldsReturn := by
    rintro ⟨raw, hraw, hmem⟩
    have hraw : Lexeme.string raw ∈ [.ofKeyword .void, .name "g", .ofSymbol .leftParen,
      .ofSymbol .rightParen, .ofSymbol .leftCurly, .ofKeyword .cout, .ofSymbol .write,
      .string "\"a\"", .ofSymbol .semicolon, .ofSymbol .rightCurly] := hraw
    obtain rfl : raw = "\"a\"" := by simpa [Lexeme.ofKeyword, Lexeme.ofSymbol] using hraw
    revert hmem
    decide
  obtain ⟨_, _, ⟨⟩, ⟨⟩, hback, -⟩ := written_reads_back hreport rfl (by decide) rfl
  obtain ⟨again, q, hagain, hresult, hq, hsame, -⟩ := hback hreturn (depth_writeProgram _)
  exact ⟨_, again, q, hreport, hagain, hresult, rfl, hq, hsame⟩

theorem written_return_not_read_back : ∃ report again,
    (writingSession.reprint .empty (writeSource "\"a\rb\"") (some "f")).report = .ok report ∧
      report.succeeded = true ∧ report.program = some (writeProgram "\"a\rb\"") ∧
      (∀ b e, (b, Site.expression e) ∈ (writeProgram "\"a\rb\"").sites →
        (b + 3 * e.height - 2 : Int) ≤ writingSession.settings.limits.depth) ∧
      (writingSession.reprintFile
        (writingSession.reprint .empty (writeSource "\"a\rb\"") (some "f")).disk "f" none).report =
        .ok again ∧
      again.succeeded = false := by
  have htokens : (Scan.ofText (writeSource "\"a\rb\"").toList).result =
      .ok (writeTokens "\"a\rb\"" 25) := by
    decide +kernel
  have htext : writingSession.text (writeProgram "\"a\rb\"").toNode =
      .ok "void g() \x7b\n    cout << \"a\rb\";\n\x7d\n\n" := by
    decide
  have hrun := reprint_writeSource htokens htext
  have hread := Disk.read_of_write
    (Disk.write_empty (Text.Utf8.encode "void g() \x7b\n    cout << \"a\rb\";\n\x7d\n\n".toList))
  have hfailure : (Scan.ofText (String.ofList (Text.unifyLineEnds
      "void g() \x7b\n    cout << \"a\rb\";\n\x7d\n\n".toList)).toList).result = .error (.lexical
        [⟨.unterminatedString, ⟨2, 13⟩⟩, ⟨.unterminatedString, ⟨3, 2⟩⟩]) := by
    decide +kernel
  have hfile : writingSession.reprintFile _ "f" none = writingSession.reprint _ _ none :=
    Session.reprintFile_of_read hread (Session.sourceText_encode _)
  rw [Session.reprint_of_scan_error hfailure] at hfile
  rw [hrun]
  exact ⟨_, _, rfl, rfl, rfl, depth_writeProgram _, congrArg Run.report hfile, rfl⟩

end Cmm

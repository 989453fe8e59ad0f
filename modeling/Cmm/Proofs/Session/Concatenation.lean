import Cmm.Proofs.Node.Concatenation
import Cmm.Proofs.Program.Concatenation
import Cmm.Proofs.Session.Reprint

/-!
# Running over two sources in a row

A source that is accepted does not change what is said of a source behind it, only the lines there.
-/

namespace Cmm

def Failure.shift (lines : Int) : Failure → Failure
  | .scanning failure => .scanning (failure.shift lines)
  | .parsing e => .parsing (e.shift lines)
  | failure => failure

/-- What is told of two sources, one behind the other, from what is told of each of them. -/
structure Report.Joins (lines : Int) (front back whole : Report) : Prop where
  succeeded : whole.succeeded = back.succeeded
  failure : ∀ failure, back.result = .error failure → whole.result = .error (failure.shift lines)
  text : back.succeeded = true → ∃ text text',
    front.text? = some text ∧ back.text? = some text' ∧ whole.text? = some (text ++ text')
  decls : back.succeeded = true → ∃ p q r more,
    front.program = some p ∧ back.program = some q ∧ whole.program = some r ∧
      r.decls.map Decl.toNode = p.decls.map Decl.toNode ++ more ∧
      Node.AllAlike (Token.Shifted lines) (q.decls.map Decl.toNode) more

theorem Report.joins_of_error {lines : Int} {front back whole : Report} {failure : Failure}
    (hback : back.result = .error failure) (hwhole : whole.result = .error (failure.shift lines)) :
    Joins lines front back whole := by
  have hfailed : back.succeeded ≠ true := by
    rw [Report.succeeded, hback]
    exact Bool.false_ne_true
  refine ⟨?_, ?_, fun h => absurd h hfailed, fun h => absurd h hfailed⟩
  · rw [Report.succeeded, Report.succeeded, hback, hwhole]
    rfl
  · intro other hother
    rw [hback] at hother
    cases hother
    exact hwhole

theorem Session.text_append {s : Session} {p q r : Program} {more : List Node} {text : String}
    {lines : Int} (hp : s.text p.toNode = .ok text)
    (hr : r.decls.map Decl.toNode = p.decls.map Decl.toNode ++ more)
    (hq : Node.AllAlike (Token.Shifted lines) (q.decls.map Decl.toNode) more) :
    s.text r.toNode = (s.text q.toNode).map (text ++ ·) := by
  have hplaced : Token.Placed (Token.Shifted lines) q.position (q.position.shift lines) :=
    ⟨.endOfInput q.position, _, rfl, rfl, rfl⟩
  have hmoved : q.toNode.sameAs (.program (.list .declarations more (q.position.shift lines))
      (q.position.shift lines)) = true := by
    apply Node.Alike.sameAs (P := Token.Shifted lines)
    · rintro t _ rfl
      rfl
    · exact .program (.list _ hq hplaced) hplaced
  obtain ⟨hfault, rfl⟩ := text_eq_ok_iff.1 hp
  obtain ⟨hwhole, htext⟩ := Node.printWith_append hfault more (q.position.shift lines) r.position
  rw [← Node.printWith_eq_of_sameAs hmoved, ← hr] at hwhole htext
  change (r.toNode.printWith s.settings.room s.settings.tabWidth).fault = _ at hwhole
  cases hback : (q.toNode.printWith s.settings.room s.settings.tabWidth).fault with
  | some fault =>
      rw [text_eq_error_iff.2 hback, text_eq_error_iff.2 (hwhole.trans hback)]
      rfl
  | none =>
      rw [text_eq_ok_iff.2 ⟨hback, rfl⟩, text_eq_ok_iff.2 ⟨hwhole.trans hback, rfl⟩]
      exact congrArg Except.ok (htext hback)

theorem Session.warnings_scanned_append (s : Session) {front back source : String}
    (hsource : source.toList = front.toList ++ '\n' :: back.toList)
    (hfront : ∀ t ∈ Segment.split front.toList, t.unreadable? = none)
    (hback : ∀ t ∈ Segment.split back.toList, t.unreadable? = none) :
    (s.scanned source).warnings = s.settings.warnings ++ (Scan.ofText front.toList).warnings ++
      (Scan.ofText back.toList).warnings.map (Warning.shift (1 + front.toList.count '\n')) := by
  have htokens := Scan.tokens_append hfront back.toList
  rw [Scan.tokens_of_readable hback, ← hsource] at htokens
  rw [warnings_scanned htokens, hsource, Scan.warnings_append hfront, List.append_assoc]

theorem Disk.takes_of_succeeded {s : Session} {disk : Disk} {source : String}
    {output : Option String} {report : Report}
    (h : (s.reprint disk source output).report = .ok report) (hok : report.succeeded = true) :
    disk.Takes output := by
  obtain ⟨tokens, program, text, -, -, -, -, hwrite⟩ := Session.reprint_succeeded h hok
  intro name hname hne bytes
  exact Disk.write_of_write (hwrite name hname hne) bytes

/-- Where a source is accepted, a line feed and another source behind it are accepted if the other
source is.  Then the declarations and the text of both are those of the one and those of the other;
otherwise what is wrong with the other one is reported, with its lines counted on.  The warnings of
both are those of the one and those of the other, also with its lines counted on, unless the other
one has a number with more digits than are allowed. -/
theorem reprint_append (s : Session) (disk : Disk) (output : Option String) {front : String}
    {first : Report} (hfirst : (s.reprint disk front output).report = .ok first)
    (hok : first.succeeded = true) (back : String) : ∃ second whole,
      (s.reprint disk back output).report = .ok second ∧
      (s.reprint disk (front ++ "\n" ++ back) output).report = .ok whole ∧
      Report.Joins (1 + front.toList.count '\n') first second whole ∧
      ((∀ s ∈ Segment.split back.toList, (∀ c ∈ s.text, c.isDigit = true) →
          s.text.length ≤ Text.digitLimit) →
        whole.warnings = s.settings.warnings ++ (Scan.ofText front.toList).warnings ++
          (Scan.ofText back.toList).warnings.map (Warning.shift (1 + front.toList.count '\n'))) := by
  have htakes := Disk.takes_of_succeeded hfirst hok
  obtain ⟨tokens, p, text, htokens, hp, htext, rfl, -⟩ := Session.reprint_succeeded hfirst hok
  have hchars : (front ++ "\n" ++ back).toList = front.toList ++ '\n' :: back.toList := by
    rw [String.toList_append, String.toList_append, List.append_assoc]
    rfl
  have hread := Scan.readable_of_tokens (Scan.result_eq_ok htokens).1
  have hwarnings := fun hshort =>
    s.warnings_scanned_append hchars hread (Segment.readable_of_short hshort)
  -- each stage of the run over both sources goes as it goes for the second one on its own
  obtain ⟨u, e, rfl, hu, hresult⟩ := Scan.result_append htokens back.toList
  rw [← hchars] at hresult
  cases hback : (Scan.ofText back.toList).result with
  | error failure =>
      rw [hback] at hresult
      refine ⟨_, _, congrArg Run.report (Session.reprint_of_scan_error hback),
        congrArg Run.report (Session.reprint_of_scan_error hresult), ?_, hwarnings⟩
      exact Report.joins_of_error rfl rfl
  | ok others =>
      rw [hback] at hresult
      have happend := Program.ofTokens_append s.settings.limits hu hp
        (Scan.getLast?_of_result hback) (1 + front.toList.count '\n')
      cases hq : Program.ofTokens s.settings.limits others with
      | error e =>
          rw [hq] at happend
          refine ⟨_, _, congrArg Run.report (Session.reprint_of_parse_error hback hq),
            congrArg Run.report (Session.reprint_of_parse_error hresult happend), ?_, hwarnings⟩
          exact Report.joins_of_error rfl rfl
      | ok q =>
          rw [hq] at happend
          obtain ⟨r, more, hr, hdecls, hmore⟩ := happend
          have hwhole := Session.text_append htext hdecls hmore
          cases htext' : s.text q.toNode with
          | error fault =>
              rw [htext'] at hwhole
              refine ⟨_, _, congrArg Run.report (Session.reprint_of_print_error hback hq htext'),
                congrArg Run.report (Session.reprint_of_print_error hresult hr hwhole), ?_,
                hwarnings⟩
              exact Report.joins_of_error rfl rfl
          | ok text' =>
              rw [htext'] at hwhole
              refine ⟨_, _, Session.report_of_text hback hq htext' htakes,
                Session.report_of_text hresult hr hwhole htakes, ?_, hwarnings⟩
              refine ⟨rfl, ?_, fun _ => ⟨text, text', rfl, rfl, rfl⟩, fun _ => ?_⟩
              · intro failure hfailure
                cases hfailure
              · exact ⟨p, q, r, more, rfl, rfl, rfl, hdecls, hmore⟩

private def plainSession : Session := .start (.choose .unset none {})

private def commentedSource : String := "int x;//"

private def commentedProgram : Program :=
  ⟨[.variableDecl ⟨.primitive .int, ⟨"x", ⟨1, 5⟩⟩, ⟨1, 1⟩⟩], ⟨1, 1⟩⟩

private def numberSource : String := "3000000000"

theorem reprint_append_of_comment : ∃ first whole,
    (plainSession.reprint .empty commentedSource none).report = .ok first ∧
      first.succeeded = true ∧
      (plainSession.reprint .empty (commentedSource ++ "\n" ++ numberSource) none).report =
        .ok whole ∧
      whole.errors = ["Syntax analysis failed: Expected declaration at 2:1"] ∧
      whole.warnings = [.numberTooLarge ⟨2, 1⟩] := by
  have hcommented : (Scan.ofText commentedSource.toList).result =
      .ok [⟨.keyword .int "int", ⟨1, 1⟩⟩, ⟨.name "x", ⟨1, 5⟩⟩, ⟨.symbol .semicolon ";", ⟨1, 6⟩⟩,
        .endOfInput ⟨1, 9⟩] := by
    decide +kernel
  have hprogram : Program.ofTokens plainSession.settings.limits [⟨.keyword .int "int", ⟨1, 1⟩⟩,
      ⟨.name "x", ⟨1, 5⟩⟩, ⟨.symbol .semicolon ";", ⟨1, 6⟩⟩, .endOfInput ⟨1, 9⟩] =
        .ok commentedProgram := rfl
  have htext : plainSession.text commentedProgram.toNode = .ok "int x;\n" := by
    decide
  have hnumber : (Scan.ofText numberSource.toList).result =
      .ok [⟨.number 2147483647, ⟨1, 1⟩⟩, .endOfInput ⟨1, 11⟩] := by
    decide +kernel
  have herror : Program.ofTokens plainSession.settings.limits
      [⟨.number 2147483647, ⟨1, 1⟩⟩, .endOfInput ⟨1, 11⟩] =
        .error ⟨.unexpected "Expected declaration", some ⟨.number 2147483647, ⟨1, 1⟩⟩⟩ := rfl
  have hshort : ∀ s ∈ Segment.split numberSource.toList, s.text.length ≤ Text.digitLimit := by
    decide +kernel
  have hfirst : (plainSession.reprint .empty commentedSource none).report = .ok _ :=
    congrArg Run.report (Session.reprint_of_text hcommented hprogram htext (.inl rfl))
  have hback : (plainSession.reprint .empty numberSource none).report = .ok _ :=
    congrArg Run.report (Session.reprint_of_parse_error hnumber herror)
  obtain ⟨second, whole, hsecond, hwhole, hjoins, hwarnings⟩ :=
    reprint_append plainSession .empty none hfirst rfl numberSource
  obtain rfl := Except.ok.inj (hback.symm.trans hsecond)
  have hresult := hjoins.failure _ rfl
  refine ⟨_, whole, hfirst, rfl, hwhole, ?_, ?_⟩
  · rw [Report.errors, hresult]
    decide
  · rw [hwarnings fun s hs _ => hshort s hs]
    decide +kernel

end Cmm

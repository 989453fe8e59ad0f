import Cmm.Proofs.Token.Scanning
import Cmm.Token.Scanner
import Cmm.Trace

/-!
# Scanners that are driven from outside

A scanner may be asked for a string, a number or a word wherever it stands.  Whatever it is asked
for, it goes over the characters that come next, and its position stays the one behind all that it
went over.
-/

namespace Cmm

namespace Scanner

def proceed (s : Scanner) (count : Nat) (errors : List LexicalError) (warnings : List Warning) :
    Scanner :=
  { s.skip count with errors := s.errors ++ errors, warnings := s.warnings ++ warnings }

theorem proceed_nil (s : Scanner) (count : Nat) : s.proceed count [] [] = s.skip count := by
  simp [proceed, skip]

theorem skip_zero (s : Scanner) : s.skip 0 = s := by
  simp [skip]

theorem report_eq_proceed (s : Scanner) (count : Nat) (cause : LexicalCause) (p : Position) :
    (s.skip count).report cause p = s.proceed count [⟨cause, p⟩] [] := by
  simp [proceed, report, skip]

theorem warn_eq_proceed (s : Scanner) (count : Nat) (warning : Warning) :
    (s.skip count).warn warning = s.proceed count [] [warning] := by
  simp [proceed, warn, skip]

/-! ## What an action does -/

theorem exists_readString (s : Scanner) :
    ∃ count errors, s.readString.2 = s.proceed count errors [] := by
  unfold readString
  split
  · exact ⟨0, _, by rw [← report_eq_proceed, skip_zero]⟩
  · dsimp only
    split
    · exact ⟨_, _, report_eq_proceed ..⟩
    · exact ⟨_, [], (proceed_nil ..).symm⟩

theorem exists_readNumber (s : Scanner) (p : Position) :
    ∃ count warnings, (s.readNumber p).2 = s.proceed count [] warnings := by
  unfold readNumber
  dsimp only
  split
  · exact ⟨_, [], (proceed_nil ..).symm⟩
  · dsimp only
    split
    · exact ⟨_, _, warn_eq_proceed ..⟩
    · exact ⟨_, [], (proceed_nil ..).symm⟩

theorem exists_perform (s : Scanner) {action : Action} (h : action ≠ .scan) :
    ∃ count errors warnings, (s.perform action).2 = s.proceed count errors warnings := by
  have skipped : ∀ count, ∃ count' errors warnings,
      s.skip count = s.proceed count' errors warnings :=
    fun count => ⟨count, [], [], (proceed_nil ..).symm⟩
  have stays : ∃ count errors warnings, s = s.proceed count errors warnings :=
    ⟨0, [], [], by rw [proceed_nil, skip_zero]⟩
  cases action with
  | current => exact stays
  | peek distance => exact stays
  | hasErrors => exact stays
  | advance => exact skipped _
  | skipSpaces => exact skipped _
  | skipLine => exact skipped _
  | readWord => exact skipped _
  | readString =>
      obtain ⟨count, errors, hread⟩ := s.exists_readString
      exact ⟨count, errors, [], hread⟩
  | readNumber p =>
      obtain ⟨count, warnings, hread⟩ := s.exists_readNumber p
      exact ⟨count, [], warnings, hread⟩
  | scan => exact absurd rfl h

/-! ## Positions -/

/-- A scanner in a text, at the position behind the characters that it went over. -/
structure Follows (text : List Char) (s : Scanner) : Prop where
  text_eq : s.text = text
  position_eq : s.position = .behind s.before.reverse

theorem follows_ofText (text : List Char) : Follows text (ofText text) :=
  ⟨rfl, Position.start_eq_behind⟩

theorem Follows.skip {text : List Char} {s : Scanner} (h : Follows text s) (count : Nat) :
    Follows text (s.skip count) where
  text_eq := by rw [text_skip, h.text_eq]
  position_eq := by
    change s.position.after _ = .behind ((s.rest.take count).reverse ++ s.before).reverse
    rw [h.position_eq, Position.after_behind, List.reverse_append, List.reverse_reverse]

theorem Follows.perform {text : List Char} {s : Scanner} (h : Follows text s) (action : Action) :
    Follows text (s.perform action).2 := by
  by_cases hscan : action = .scan
  · subst hscan
    have hstart := (follows_ofText text).skip (Scan.ofText text).text.length
    rw [← h.text_eq] at hstart ⊢
    exact ⟨hstart.text_eq, hstart.position_eq⟩
  · obtain ⟨count, errors, warnings, hperform⟩ := s.exists_perform hscan
    rw [hperform]
    exact ⟨(h.skip count).text_eq, (h.skip count).position_eq⟩

theorem Follows.offset_le {text : List Char} {s : Scanner} (h : Follows text s) :
    s.offset ≤ text.length := by
  rw [← h.text_eq, Scanner.text, List.length_append, List.length_reverse]
  exact Nat.le_add_right ..

theorem Follows.take_offset {text : List Char} {s : Scanner} (h : Follows text s) :
    text.take s.offset = s.before.reverse := by
  rw [← h.text_eq, Scanner.text, offset, ← List.length_reverse, List.take_left]

/-! ## What is never taken back -/

/-- Nothing is gone back over, and what was reported is still there, in front of all else. -/
structure Extends (s t : Scanner) : Prop where
  offset_le : s.offset ≤ t.offset
  errors_prefix : s.errors <+: t.errors
  warnings_prefix : s.warnings <+: t.warnings

theorem extends_proceed (s : Scanner) (count : Nat) (errors : List LexicalError)
    (warnings : List Warning) : s.Extends (s.proceed count errors warnings) where
  offset_le := by
    change s.before.length ≤ (_ ++ s.before).length
    rw [List.length_append]
    exact Nat.le_add_left ..
  errors_prefix := List.prefix_append ..
  warnings_prefix := List.prefix_append ..

/-! ## Sequences of actions -/

/-- After any actions a scanner is somewhere in its text, its line is told by the line feeds behind
it and its column by the characters behind the last of them.  The next action goes back over nothing
and takes no report back, unless it is a scan of the whole text, which gives what it gives at the
start. -/
theorem scanner_driven (source : String) (actions : List Action) (action : Action) :
    let s := behind perform (ofText source.toList) actions
    s.text = source.toList ∧
    s.offset ≤ source.toList.length ∧
    s.position = .behind (source.toList.take s.offset) ∧
    (action ≠ .scan → s.Extends (s.perform action).2) ∧
    s.perform .scan = (ofText source.toList).perform .scan := by
  intro s
  have h : Follows source.toList s :=
    behind_keeps (P := Follows source.toList) (fun _ action hs => hs.perform action)
      (follows_ofText _) actions
  refine ⟨h.text_eq, h.offset_le, ?_, fun hscan => ?_, ?_⟩
  · rw [h.take_offset, h.position_eq]
  · obtain ⟨count, errors, warnings, hperform⟩ := s.exists_perform hscan
    rw [hperform]
    exact s.extends_proceed count errors warnings
  · change (Answer.tokens s.scan.1, s.scan.2) = (Answer.tokens (ofText _).scan.1, _)
    rw [scan, h.text_eq]
    rfl

theorem scanner_driven_of_misreadings :
    let actions : List Action := [.readNumber .start, .advance, .readString, .peek (-1)]
    let s := behind perform (ofText "a5\n99999999999 \"b\n".toList) actions
    s.position = .behind "a5".toList ∧ s.errors = [⟨.unterminatedString, ⟨1, 2⟩⟩] ∧
    s.Extends (s.perform .advance).2 := by
  intro actions s
  obtain ⟨-, -, hposition, hextends, -⟩ :=
    scanner_driven "a5\n99999999999 \"b\n" actions .advance
  have hoffset : s.offset = 2 := by decide
  refine ⟨?_, by decide, hextends (by decide)⟩
  rw [hposition, show (behind perform _ actions).offset = 2 from hoffset]
  decide

end Scanner

end Cmm

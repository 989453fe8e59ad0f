import Cmm.Proofs.Token.Spelling

/-!
# What scanning reports

Tokens, errors and warnings are those of the pieces that the text is cut into, in their order.  A
piece is placed by counting the line feeds in front of it and the characters behind the last one.
-/

namespace Cmm

/-! ## Places -/

namespace Position

/-- The position behind a text: its lines are ended by its line feeds, and columns are counted from
the last of these on. -/
def behind (text : List Char) : Position :=
  ⟨1 + text.count '\n', 1 + (text.reverse.takeWhile (· ≠ '\n')).length⟩

theorem next_behind (text : List Char) (c : Char) : (behind text).next c = behind (text ++ [c]) := by
  by_cases hc : c = '\n'
  · subst hc
    simp [behind, next, Int.add_assoc]
  · simp [behind, next, hc, Int.add_assoc]

theorem after_behind (front text : List Char) :
    (behind front).after text = behind (front ++ text) := by
  induction text generalizing front with
  | nil => simp
  | cons c rest ih => rw [after_cons, next_behind, ih, List.append_assoc, List.singleton_append]

theorem start_eq_behind : start = behind [] := rfl

end Position

namespace Piece

def behind (front : List Char) : List Segment → List Piece
  | [] => []
  | s :: rest => ⟨.behind front, s⟩ :: behind (front ++ s.text) rest

theorem place_behind (front : List Char) (segments : List Segment) :
    place (.behind front) segments = behind front segments := by
  induction segments generalizing front with
  | nil => rfl
  | cons s rest ih => rw [place, behind, Position.after_behind, ih]

theorem map_segment_behind (front : List Char) (segments : List Segment) :
    (behind front segments).map segment = segments := by
  rw [← place_behind, map_segment_place]

end Piece

/-! ## Scans -/

theorem Tiles.flatMap_text {text : List Char} {segments : List Segment} (h : Tiles text segments) :
    segments.flatMap Segment.text = text := by
  rw [tiles_iff.1 h, Segment.flatMap_text_split]

theorem Tiles.ofText_eq {text : List Char} {segments : List Segment} (h : Tiles text segments)
    (hread : ∀ s ∈ segments, s.unreadable? = none) :
    Scan.ofText text = ⟨Piece.behind [] segments, none, .behind text⟩ := by
  have hsplit := tiles_iff.1 h
  subst hsplit
  rw [Scan.ofText_of_readable hread, Position.start_eq_behind, Piece.place_behind,
    Position.after_behind, List.nil_append]

theorem Segment.Stands.unreadable?_eq_none {s : Segment} {rest : List Char} (h : s.Stands rest)
    (hshort : (∀ c ∈ s.text, c.isDigit = true) → s.text.length ≤ Text.digitLimit) :
    s.unreadable? = none := by
  cases h with
  | longNumber hdigits _ hlimit => exact absurd (hshort hdigits) (Nat.not_le.2 hlimit)
  | _ => rfl

theorem Tiles.exists_stands {text : List Char} {segments : List Segment} (h : Tiles text segments) :
    ∀ s ∈ segments, ∃ rest, s.Stands rest := by
  induction h with
  | nil => simp
  | cons hs _ ih => exact List.forall_mem_cons.2 ⟨⟨_, hs⟩, ih⟩

theorem Tiles.stands {text : List Char} {before after : List Segment} {s : Segment}
    (h : Tiles text (before ++ s :: after)) : s.Stands (after.flatMap Segment.text) := by
  induction before generalizing text with
  | nil =>
      cases h with
      | cons hs hrest => rwa [hrest.flatMap_text]
  | cons t before ih =>
      cases h with
      | cons _ hrest => exact ih hrest

theorem Segment.readable_of_short {text : List Char}
    (h : ∀ s ∈ split text, (∀ c ∈ s.text, c.isDigit = true) → s.text.length ≤ Text.digitLimit) :
    ∀ s ∈ split text, s.unreadable? = none := by
  intro s hs
  obtain ⟨rest, hstands⟩ := (tiles_split text).exists_stands s hs
  exact hstands.unreadable?_eq_none (h s hs)

/-- There is exactly one way to cut a source text into blanks, comments, lexemes, malformed strings
and illegal characters.  If none of its numbers has more digits than are allowed, scanning gives the
lexemes among the pieces as tokens, behind them the end of the input, reports the malformed strings
and illegal characters, and warns of the numbers that are too large, all of them in the order of the
text and at the positions where they start. -/
theorem scan_tiles (source : String) : ∃ segments : List Segment,
    (∀ other, Tiles source.toList other ↔ other = segments) ∧
    segments.flatMap Segment.text = source.toList ∧
    (∀ s ∈ segments, ∀ l, s.lexeme? = some l ↔ Spelling s.text l) ∧
    ((∀ s ∈ segments, (∀ c ∈ s.text, c.isDigit = true) → s.text.length ≤ Text.digitLimit) →
      (Scan.ofText source.toList).tokens = .ok ((Piece.behind [] segments).filterMap Piece.token? ++
        [.endOfInput (.behind source.toList)]) ∧
      (Scan.ofText source.toList).errors = (Piece.behind [] segments).filterMap Piece.error? ∧
      (Scan.ofText source.toList).warnings =
        (Piece.behind [] segments).filterMap Piece.warning?) := by
  have htiles := tiles_split source.toList
  refine ⟨_, fun other => tiles_iff, htiles.flatMap_text, fun s hs l => ?_, fun hshort => ?_⟩
  · obtain ⟨rest, hstands⟩ := htiles.exists_stands s hs
    exact hstands.lexeme?_eq_some_iff
  · have hread : ∀ s ∈ Segment.split source.toList, s.unreadable? = none := by
      intro s hs
      obtain ⟨rest, hstands⟩ := htiles.exists_stands s hs
      exact hstands.unreadable?_eq_none (hshort s hs)
    rw [htiles.ofText_eq hread]
    exact ⟨rfl, rfl, rfl⟩

private def flawedText : String := "--4\n\"\\q\"@ 3000000000"

private def flawedSegments : List Segment :=
  [⟨['-', '-'], .symbol .minusMinus⟩, ⟨['4'], .number 4⟩, ⟨['\n'], .blank⟩,
    ⟨['"', '\\', 'q', '"'], .malformed .badEscape⟩, ⟨['@'], .malformed (.illegalCharacter '@')⟩,
    ⟨[' '], .blank⟩, ⟨"3000000000".toList, .number 3000000000⟩]

theorem scan_tiles_of_flaws : ∃ segments : List Segment, Tiles flawedText.toList segments ∧
    (∀ s ∈ segments, (∀ c ∈ s.text, c.isDigit = true) → s.text.length ≤ Text.digitLimit) ∧
    (Scan.ofText flawedText.toList).tokens = .ok [⟨.symbol .minusMinus "--", ⟨1, 1⟩⟩,
      ⟨.number 4, ⟨1, 3⟩⟩, ⟨.number 2147483647, ⟨2, 7⟩⟩, ⟨.endOfInput, ⟨2, 17⟩⟩] ∧
    (Scan.ofText flawedText.toList).errors =
      [⟨.badEscape, ⟨2, 1⟩⟩, ⟨.illegalCharacter '@', ⟨2, 5⟩⟩] ∧
    (Scan.ofText flawedText.toList).warnings = [.numberTooLarge ⟨2, 7⟩] := by
  obtain ⟨segments, htiles, -, -, hscan⟩ := scan_tiles flawedText
  obtain rfl : flawedSegments = segments := (htiles _).1 (tiles_iff.2 (by decide +kernel))
  have hlength : ∀ s ∈ flawedSegments, s.text.length ≤ Text.digitLimit := by decide
  have hshort : ∀ s ∈ flawedSegments, (∀ c ∈ s.text, c.isDigit = true) →
      s.text.length ≤ Text.digitLimit := fun s hs _ => hlength s hs
  obtain ⟨htokens, herrors, hwarnings⟩ := hscan hshort
  exact ⟨_, (htiles _).2 rfl, hshort,
    htokens.trans (congrArg Except.ok (by decide)),
    herrors.trans (by decide), hwarnings.trans (by decide)⟩

end Cmm

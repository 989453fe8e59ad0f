import Cmm.Proofs.Token.Order

/-!
# Large numbers

A number that is too large is read as the greatest one, with a warning where it stands.  A number
with more digits than are allowed is not read at all: it ends the scan.
-/

namespace Cmm

/-! ## Places apart -/

namespace Piece

theorem behind_append (front : List Char) (segments others : List Segment) :
    behind front (segments ++ others) =
      behind front segments ++ behind (front ++ segments.flatMap Segment.text) others := by
  induction segments generalizing front with
  | nil => simp [behind]
  | cons s rest ih => simp [behind, ih]

theorem count_warnings_eq_zero {pieces : List Piece} {p : Position}
    (h : ∀ piece ∈ pieces, piece.position ≠ p) :
    (pieces.filterMap warning?).count (.numberTooLarge p) = 0 := by
  rw [List.count_eq_zero]
  intro hmem
  obtain ⟨piece, hpiece, hwarning⟩ := List.mem_filterMap.1 hmem
  unfold warning? at hwarning
  split at hwarning
  · cases hwarning
    exact h piece hpiece rfl
  · cases hwarning

end Piece

/-! ## Numbers -/

def Segment.Overlong (s : Segment) : Prop :=
  (∀ c ∈ s.text, c.isDigit = true) ∧ Text.digitLimit < s.text.length

theorem Segment.text_ofDigits (digits : List Char) : (ofDigits digits).text = digits := by
  unfold ofDigits
  split <;> rfl

theorem Segment.Stands.of_isDigit {s : Segment} {rest : List Char} (h : s.Stands rest)
    (hdigit : ∃ d ∈ s.text.head?, d.isDigit = true) :
    s.text = (s.text ++ rest).takeWhile Char.isDigit ∧ s = ofDigits s.text ∧
      ∀ d ∈ s.text, d.isDigit = true := by
  obtain ⟨c, more, htext, hfirst⟩ := h.first_eq
  obtain ⟨d, hd, hdigit⟩ := hdigit
  rw [htext] at hd
  obtain rfl : c = d := Option.some.inj hd
  rw [first_of_isDigit hdigit] at hfirst
  have hrun : s.text = c :: (more ++ rest).takeWhile Char.isDigit := by
    rw [← hfirst, text_ofDigits]
  have hlongest : (s.text ++ rest).takeWhile Char.isDigit =
      c :: (more ++ rest).takeWhile Char.isDigit := by
    rw [htext, List.cons_append, List.takeWhile_cons_of_pos hdigit]
  refine ⟨?_, ?_, ?_⟩
  · rw [hlongest, hrun]
  · rw [hrun, hfirst]
  · rw [hrun]
    exact List.forall_mem_cons.2 ⟨hdigit, List.all_eq_true.1 List.all_takeWhile⟩

/-- The first numeral that cannot be read is all that the scan tells. -/
theorem Scan.tokens_of_unreadable {text : List Char} {before after : List Segment} {s : Segment}
    {e : NumeralError} (h : Segment.split text = before ++ s :: after)
    (hbefore : ∀ t ∈ before, t.unreadable? = none) (hs : s.unreadable? = some e) :
    (ofText text).tokens = .error e := by
  have hread : ∀ piece ∈ Piece.place .start before, piece.segment.unreadable?.isNone = true :=
    fun piece hpiece => by rw [hbefore _ (mem_of_mem_place hpiece)]; rfl
  have hstop : (ofText text).stop =
      some ⟨Position.start.after (before.flatMap Segment.text), s⟩ := by
    simp only [ofText, h, place_append, Piece.place]
    rw [List.dropWhile_append_of_pos hread, List.dropWhile_cons_of_neg (by simp [hs])]
    rfl
  rw [tokens, hstop, Option.bind_some, hs]

theorem Segment.unreadable?_ofDigits {digits : List Char} (h : Text.digitLimit < digits.length) :
    (ofDigits digits).unreadable? = some (.tooManyDigits Text.digitLimit digits.length) := by
  have hne : digits ≠ [] := List.ne_nil_of_length_pos (Nat.zero_lt_of_lt h)
  rw [ofDigits, numeralValue, if_neg hne, if_pos h]
  rfl

theorem Segment.ofDigits_of_le {digits : List Char} (hne : digits ≠ [])
    (h : digits.length ≤ Text.digitLimit) :
    ofDigits digits = ⟨digits, .number (Nat.ofDigitChars 10 digits 0)⟩ := by
  rw [ofDigits, numeralValue, if_neg hne, if_neg (Nat.not_lt.2 h)]

theorem Segment.readable_of_not_overlong {text : List Char} {s : Segment} (hs : s ∈ split text)
    (h : ¬s.Overlong) : s.unreadable? = none := by
  obtain ⟨rest, hstands⟩ := (tiles_split text).exists_stands s hs
  apply hstands.unreadable?_eq_none
  intro hdigits
  exact Nat.not_lt.1 fun hlong => h ⟨hdigits, hlong⟩

theorem Segment.not_overlong_of_length_le {text : List Char}
    (h : text.length ≤ Text.digitLimit) : ∀ s ∈ split text, ¬s.Overlong := by
  rintro s hs ⟨-, hlong⟩
  obtain ⟨before, after, hsplit⟩ := List.append_of_mem hs
  have htext := flatMap_text_split text
  rw [hsplit, List.flatMap_append, List.flatMap_cons] at htext
  have hlength := congrArg List.length htext
  rw [List.length_append, List.length_append] at hlength
  omega

theorem Scan.ofText_of_number {text : List Char} {before after : List Segment} {s : Segment}
    (h : Segment.split text = before ++ s :: after)
    (hread : ∀ t ∈ Segment.split text, t.unreadable? = none)
    (hdigit : ∃ d ∈ s.text.head?, d.isDigit = true) (hshort : s.text.length ≤ Text.digitLimit) :
    let front := before.flatMap Segment.text
    let value := Nat.ofDigitChars 10 s.text 0
    (ofText text).tokens = .ok ((Piece.behind [] before).filterMap Piece.token? ++
        ⟨.number (min value maxNumber : Nat), .behind front⟩ ::
        (Piece.behind (front ++ s.text) after).filterMap Piece.token? ++
        [.endOfInput (.behind text)]) ∧
      (ofText text).warnings = (Piece.behind [] before).filterMap Piece.warning? ++
        (if maxNumber < value then [.numberTooLarge (.behind front)] else []) ++
        (Piece.behind (front ++ s.text) after).filterMap Piece.warning? := by
  have htiles := tiles_split text
  have hstands := (h ▸ htiles).stands
  have hnumber := (hstands.of_isDigit hdigit).2.1
  rw [Segment.ofDigits_of_le hstands.ne_nil hshort] at hnumber
  have hcontent := congrArg Segment.content hnumber
  have htoken : ∀ p, Piece.token? ⟨p, s⟩ =
      some ⟨.number (min (Nat.ofDigitChars 10 s.text 0) maxNumber : Nat), p⟩ := by
    intro p
    rw [Piece.token?, Segment.lexeme?, hcontent]
    rfl
  have hscan := htiles.ofText_eq hread
  rw [h, Piece.behind_append, Piece.behind, List.nil_append] at hscan
  constructor
  · rw [tokens_of_readable hread, hscan, List.filterMap_append,
      List.filterMap_cons_some (htoken _)]
  · rw [warnings, hscan, List.filterMap_append, List.filterMap_cons, List.append_assoc]
    simp only [Piece.warning?, Segment.isTooLarge, hcontent, decide_eq_true_eq]
    by_cases hlarge : maxNumber < Nat.ofDigitChars 10 s.text 0
    · rw [if_pos hlarge, if_pos hlarge]
      rfl
    · rw [if_neg hlarge, if_neg hlarge]
      rfl

theorem Scan.count_warnings_of_number {text : List Char} {before after : List Segment} {s : Segment}
    (h : Segment.split text = before ++ s :: after) (large : Prop) [Decidable large] :
    let front := before.flatMap Segment.text
    ((Piece.behind [] before).filterMap Piece.warning? ++
      (if large then [Warning.numberTooLarge (.behind front)] else []) ++
      (Piece.behind (front ++ s.text) after).filterMap Piece.warning?).count
        (Warning.numberTooLarge (.behind front)) = if large then 1 else 0 := by
  intro front
  have hne : ∀ t ∈ Segment.split text, t.text ≠ [] := by
    intro t ht
    obtain ⟨rest, hstands⟩ := (tiles_split text).exists_stands t ht
    exact hstands.ne_nil
  have hbefore : ∀ piece ∈ Piece.behind [] before, piece.position ≠ .behind front := by
    intro piece hpiece
    obtain ⟨hmem, u, v, htext, hposition⟩ := Piece.exists_of_mem_behind hpiece
    have hpiece_ne := hne _ (h ▸ List.mem_append_left _ hmem)
    have hfront : front = u ++ (piece.segment.text ++ v) := htext
    rw [hposition, List.nil_append, hfront]
    exact (Position.behind_append_ne u (by simp [hpiece_ne])).symm
  have hafter : ∀ piece ∈ Piece.behind (front ++ s.text) after,
      piece.position ≠ .behind front := by
    intro piece hpiece
    obtain ⟨-, u, v, -, hposition⟩ := Piece.exists_of_mem_behind hpiece
    have hs_ne := hne s (h ▸ List.mem_append_right _ (List.mem_cons_self ..))
    rw [hposition, List.append_assoc]
    exact Position.behind_append_ne front (by simp [hs_ne])
  rw [List.count_append, List.count_append, Piece.count_warnings_eq_zero hbefore,
    Piece.count_warnings_eq_zero hafter, Nat.zero_add, Nat.add_zero]
  split <;> simp

theorem Segment.split_of_overlong {s : Segment} (h : s.Overlong) :
    split s.text = [⟨s.text, .unreadable (.tooManyDigits Text.digitLimit s.text.length)⟩] := by
  have hs : Stands ⟨s.text, .unreadable (.tooManyDigits Text.digitLimit s.text.length)⟩ [] :=
    .longNumber h.1 (by simp) h.2
  have htiles := Tiles.cons hs .nil
  rw [List.append_nil] at htiles
  exact (tiles_iff.1 htiles).symm

/-- Every source is scanned up to its end if none of its numbers has more digits than are allowed.
Then every longest run of digits that a piece begins with gives one number, the greatest one if it is
too large, and in that case, and only then, one warning at its place.  Otherwise the scan ends with
the first number that has too many digits, and gives no tokens. -/
theorem scan_clamps (source : String) :
    ((∀ s ∈ Segment.split source.toList, ¬s.Overlong) →
      (∃ u, (Scan.ofText source.toList).tokens = .ok (u ++ [.endOfInput (.behind source.toList)])) ∧
      ∀ before s after, Segment.split source.toList = before ++ s :: after →
        (∃ d ∈ s.text.head?, d.isDigit = true) →
        let front := before.flatMap Segment.text
        let rest := after.flatMap Segment.text
        let value := Nat.ofDigitChars 10 s.text 0
        source.toList = front ++ (s.text ++ rest) ∧
        s.text = (s.text ++ rest).takeWhile Char.isDigit ∧
        (Scan.ofText source.toList).tokens =
          .ok ((Piece.behind [] before).filterMap Piece.token? ++
            ⟨.number (min value maxNumber : Nat), .behind front⟩ ::
            (Piece.behind (front ++ s.text) after).filterMap Piece.token? ++
            [.endOfInput (.behind source.toList)]) ∧
        (Scan.ofText source.toList).warnings.count (.numberTooLarge (.behind front)) =
          if maxNumber < value then 1 else 0) ∧
    ∀ before s after, Segment.split source.toList = before ++ s :: after →
      (∀ t ∈ before, ¬t.Overlong) → s.Overlong →
      (Scan.ofText source.toList).tokens =
        .error (.tooManyDigits Text.digitLimit s.text.length) := by
  have htiles := tiles_split source.toList
  constructor
  · intro hshort
    have hread : ∀ s ∈ Segment.split source.toList, s.unreadable? = none :=
      fun s hs => Segment.readable_of_not_overlong hs (hshort s hs)
    constructor
    · refine ⟨(Scan.ofText source.toList).pieces.filterMap Piece.token?, ?_⟩
      rw [Scan.tokens_of_readable hread, htiles.ofText_eq hread]
    · intro before s after hsplit hdigit
      have hstands := (hsplit ▸ htiles).stands
      obtain ⟨hlongest, -, hdigits⟩ := hstands.of_isDigit hdigit
      have htext := (hsplit ▸ htiles).flatMap_text
      rw [List.flatMap_append, List.flatMap_cons] at htext
      have hmem : s ∈ Segment.split source.toList := by
        rw [hsplit]
        exact List.mem_append_right _ (List.mem_cons_self ..)
      have hlength : s.text.length ≤ Text.digitLimit :=
        Nat.not_lt.1 fun hlong => hshort s hmem ⟨hdigits, hlong⟩
      obtain ⟨htokens, hwarnings⟩ := Scan.ofText_of_number hsplit hread hdigit hlength
      refine ⟨htext.symm, hlongest, htokens, ?_⟩
      rw [hwarnings]
      exact Scan.count_warnings_of_number hsplit _
  · intro before s after hsplit hbefore hs
    have hstands := (hsplit ▸ htiles).stands
    obtain ⟨c, more, htext⟩ := List.exists_cons_of_ne_nil hstands.ne_nil
    have hdigit : ∃ d ∈ s.text.head?, d.isDigit = true :=
      ⟨c, by rw [htext]; rfl, hs.1 c (by rw [htext]; exact List.mem_cons_self ..)⟩
    apply Scan.tokens_of_unreadable hsplit
    · intro t ht
      exact Segment.readable_of_not_overlong (hsplit ▸ List.mem_append_left _ ht) (hbefore t ht)
    · have hunreadable := Segment.unreadable?_ofDigits hs.2
      rwa [← (hstands.of_isDigit hdigit).2.1] at hunreadable

private def zerosText : String := "0003000000000;"

private def onesText (n : Nat) : String := String.ofList (List.replicate n '1')

private def onesSegment (n : Nat) : Segment :=
  ⟨(onesText n).toList, .unreadable (.tooManyDigits Text.digitLimit (onesText n).toList.length)⟩

theorem length_onesText (n : Nat) : (onesText n).toList.length = n := by
  rw [onesText, String.toList_ofList, List.length_replicate]

theorem overlong_onesSegment {n : Nat} (h : Text.digitLimit < n) : (onesSegment n).Overlong := by
  constructor
  · intro c hc
    rw [onesSegment, onesText, String.toList_ofList] at hc
    rw [List.eq_of_mem_replicate hc]
    rfl
  · rwa [onesSegment, length_onesText]

theorem split_onesText {n : Nat} (h : Text.digitLimit < n) :
    Segment.split (onesText n).toList = [] ++ onesSegment n :: [] :=
  Segment.split_of_overlong (overlong_onesSegment h)

theorem scan_clamps_of_zeros :
    (Scan.ofText zerosText.toList).tokens = .ok [⟨.number 2147483647, ⟨1, 1⟩⟩,
      ⟨.symbol .semicolon ";", ⟨1, 14⟩⟩, ⟨.endOfInput, ⟨1, 15⟩⟩] ∧
    (Scan.ofText zerosText.toList).warnings.count (.numberTooLarge ⟨1, 1⟩) = 1 ∧
    (Scan.ofText (onesText 4301).toList).tokens = .error (.tooManyDigits 4300 4301) := by
  have hsplit : Segment.split zerosText.toList =
      [] ++ ⟨"0003000000000".toList, .number 3000000000⟩ :: [⟨[';'], .symbol .semicolon⟩] := by
    decide +kernel
  have hshort : ∀ s ∈ Segment.split zerosText.toList, ¬s.Overlong := by
    rw [hsplit]
    rintro s hs ⟨-, hlong⟩
    revert s
    decide
  obtain ⟨-, hnumbers⟩ := (scan_clamps zerosText).1 hshort
  obtain ⟨-, -, htokens, hcount⟩ := hnumbers _ _ _ hsplit ⟨'0', rfl, rfl⟩
  have hones : Text.digitLimit < 4301 := by decide
  have hlong := (scan_clamps (onesText 4301)).2 [] _ [] (split_onesText hones) nofun
    (overlong_onesSegment hones)
  refine ⟨?_, ?_, ?_⟩
  · rw [htokens]
    decide
  · exact hcount
  · rw [hlong, onesSegment, length_onesText]
    rfl

theorem long_number_not_clamped :
    ¬∃ tokens, (Scan.ofText (onesText 4301).toList).tokens = .ok tokens := by
  rintro ⟨tokens, htokens⟩
  have hones : Text.digitLimit < 4301 := by decide
  rw [Scan.tokens_of_unreadable (split_onesText hones) nofun rfl] at htokens
  cases htokens

end Cmm

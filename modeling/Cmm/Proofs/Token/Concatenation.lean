import Cmm.Proofs.Token.Scanning
import Mathlib.Data.List.TakeWhile

/-!
# Scanning two texts in a row

A line feed ends whatever stands in front of it.  So a text behind a line feed is scanned as it is on
its own, only that its lines are counted from further on.
-/

namespace Cmm

/-! ## Shifted lines -/

def Position.shift (lines : Int) (p : Position) : Position := ⟨p.line + lines, p.column⟩

def Token.shift (lines : Int) (t : Token) : Token := ⟨t.lexeme, t.position.shift lines⟩

def LexicalError.shift (lines : Int) (e : LexicalError) : LexicalError :=
  ⟨e.cause, e.position.shift lines⟩

def ScanFailure.shift (lines : Int) : ScanFailure → ScanFailure
  | .numeral e => .numeral e
  | .lexical errors => .lexical (errors.map (LexicalError.shift lines))

def Warning.shift (lines : Int) : Warning → Warning
  | .numberTooLarge p => .numberTooLarge (p.shift lines)
  | .badTabWidth setting used => .badTabWidth setting used

def Piece.shift (lines : Int) (piece : Piece) : Piece :=
  ⟨piece.position.shift lines, piece.segment⟩

theorem Position.next_shift (lines : Int) (p : Position) (c : Char) :
    (p.shift lines).next c = (p.next c).shift lines := by
  unfold next
  split
  · simp [shift, Int.add_right_comm]
  · rfl

theorem Position.after_shift (lines : Int) (p : Position) (text : List Char) :
    (p.shift lines).after text = (p.after text).shift lines := by
  induction text generalizing p with
  | nil => rfl
  | cons c rest ih => rw [after_cons, after_cons, next_shift, ih]

theorem Piece.place_shift (lines : Int) (p : Position) (segments : List Segment) :
    place (p.shift lines) segments = (place p segments).map (shift lines) := by
  induction segments generalizing p with
  | nil => rfl
  | cons s rest ih =>
      rw [place, place, List.map_cons, Position.after_shift, ih]
      rfl

theorem Position.after_lineFeed (text : List Char) :
    start.after (text ++ ['\n']) = start.shift (1 + text.count '\n') := by
  rw [start_eq_behind, after_behind, List.nil_append]
  simp [behind, shift]
  omega

/-! ## Pieces in front of a line feed -/

theorem Segment.Stands.append_lineFeed {s : Segment} {rest : List Char} (h : s.Stands rest)
    (more : List Char) : s.Stands (rest ++ '\n' :: more) := by
  cases rest with
  | nil => exact h.of_head? (fun _ => by simp [AtLineEnd]) (by simp [isSpace])
  | cons c rest => exact h.of_head? id fun _ => .inl

def lineFeed : Segment := ⟨['\n'], .blank⟩

theorem Tiles.append_lineFeed {front back : List Char} {segments others : List Segment}
    (hfront : Tiles front segments) (hback : Tiles back others) :
    Tiles (front ++ '\n' :: back) (segments ++ lineFeed :: others) := by
  induction hfront with
  | nil => exact .cons (.blank (by simp)) hback
  | cons hs _ ih =>
      rw [List.append_assoc, List.cons_append]
      exact .cons (hs.append_lineFeed back) ih

theorem Segment.split_append_lineFeed (front back : List Char) :
    split (front ++ '\n' :: back) = split front ++ lineFeed :: split back :=
  (tiles_iff.1 ((tiles_split front).append_lineFeed (tiles_split back))).symm

/-! ## Scans -/

namespace Scan

theorem place_append (p : Position) (segments others : List Segment) :
    Piece.place p (segments ++ others) = Piece.place p segments ++
      Piece.place (p.after (segments.flatMap Segment.text)) others := by
  induction segments generalizing p with
  | nil => rfl
  | cons s rest ih =>
      rw [List.cons_append, Piece.place, Piece.place, ih, List.cons_append, List.flatMap_cons,
        Position.after_append]

variable {front : List Char}

theorem flatMap_text_shift (lines : Int) (pieces : List Piece) :
    (pieces.map (Piece.shift lines)).flatMap (·.segment.text) =
      pieces.flatMap (·.segment.text) := by
  rw [List.flatMap_map]
  rfl

theorem place_append_lineFeed (front back : List Char) :
    Piece.place .start (Segment.split (front ++ '\n' :: back)) =
      Piece.place .start (Segment.split front) ++ ⟨Position.start.after front, lineFeed⟩ ::
        (Piece.place .start (Segment.split back)).map (Piece.shift (1 + front.count '\n')) := by
  rw [Segment.split_append_lineFeed, place_append, Segment.flatMap_text_split, Piece.place,
    ← Position.after_append]
  change _ ++ _ :: Piece.place (Position.start.after (front ++ ['\n'])) _ = _
  rw [Position.after_lineFeed, Piece.place_shift]

section Readable

variable {before : List Piece} (h : ∀ piece ∈ before, piece.segment.unreadable?.isNone = true)
include h

theorem takeWhile_readable (p : Position) (lines : Int) (pieces : List Piece) :
    (before ++ ⟨p, lineFeed⟩ :: pieces.map (Piece.shift lines)).takeWhile
        (fun piece => piece.segment.unreadable?.isNone) =
      before ++ ⟨p, lineFeed⟩ ::
        (pieces.takeWhile fun piece => piece.segment.unreadable?.isNone).map
          (Piece.shift lines) := by
  rw [List.takeWhile_append_of_pos h, List.takeWhile_cons_of_pos rfl, List.takeWhile_map]
  rfl

theorem dropWhile_readable (p : Position) (lines : Int) (pieces : List Piece) :
    (before ++ ⟨p, lineFeed⟩ :: pieces.map (Piece.shift lines)).dropWhile
        (fun piece => piece.segment.unreadable?.isNone) =
      (pieces.dropWhile fun piece => piece.segment.unreadable?.isNone).map (Piece.shift lines) := by
  rw [List.dropWhile_append_of_pos h, List.dropWhile_cons_of_pos rfl, List.dropWhile_map]
  rfl

end Readable

/-- Behind a text whose numerals can all be read and a line feed, the scan goes on as it begins on
its own, only that the lines are counted from there on. -/
theorem ofText_append (hfront : ∀ s ∈ Segment.split front, s.unreadable? = none)
    (back : List Char) :
    ofText (front ++ '\n' :: back) =
      ⟨(ofText front).pieces ++ ⟨Position.start.after front, lineFeed⟩ ::
          (ofText back).pieces.map (Piece.shift (1 + front.count '\n')),
        (ofText back).stop.map (Piece.shift (1 + front.count '\n')),
        (ofText back).finish.shift (1 + front.count '\n')⟩ := by
  have hread : ∀ piece ∈ Piece.place .start (Segment.split front),
      piece.segment.unreadable?.isNone = true :=
    fun piece hpiece => by rw [hfront _ (mem_of_mem_place hpiece)]; rfl
  rw [ofText_of_readable hfront]
  simp only [ofText, place_append_lineFeed, takeWhile_readable hread, dropWhile_readable hread,
    List.head?_map, List.flatMap_append, List.flatMap_cons, flatMap_text_shift,
    flatMap_text_place_split]
  congr 1
  rw [← List.append_assoc, Position.after_append]
  change (Position.start.after (front ++ ['\n'])).after _ = _
  rw [Position.after_lineFeed, Position.after_shift]

theorem warnings_append (hfront : ∀ s ∈ Segment.split front, s.unreadable? = none)
    (back : List Char) :
    (ofText (front ++ '\n' :: back)).warnings =
      (ofText front).warnings ++
        (ofText back).warnings.map (Warning.shift (1 + front.count '\n')) := by
  rw [warnings, ofText_append hfront, List.filterMap_append, List.filterMap_cons_none rfl,
    List.filterMap_map, warnings, warnings, List.map_filterMap]
  congr 2
  funext piece
  simp only [Function.comp, Piece.warning?, Piece.shift]
  by_cases hlarge : piece.segment.isTooLarge <;> simp [hlarge, Warning.shift]

theorem errors_append (hfront : ∀ s ∈ Segment.split front, s.unreadable? = none)
    (back : List Char) :
    (ofText (front ++ '\n' :: back)).errors =
      (ofText front).errors ++
        (ofText back).errors.map (LexicalError.shift (1 + front.count '\n')) := by
  rw [errors, ofText_append hfront, List.filterMap_append, List.filterMap_cons_none rfl,
    List.filterMap_map, errors, errors, List.map_filterMap]
  congr 2
  funext piece
  simp only [Function.comp, Piece.error?, Piece.shift, Option.map_map]
  rfl

theorem filterMap_token?_shift (lines : Int) (pieces : List Piece) :
    (pieces.map (Piece.shift lines)).filterMap Piece.token? =
      (pieces.filterMap Piece.token?).map (Token.shift lines) := by
  rw [List.filterMap_map, List.map_filterMap]
  congr 1
  funext piece
  simp only [Function.comp, Piece.token?, Piece.shift, Option.map_map]
  rfl

theorem tokens_append (hfront : ∀ s ∈ Segment.split front, s.unreadable? = none)
    (back : List Char) :
    (ofText (front ++ '\n' :: back)).tokens = (ofText back).tokens.map fun tokens =>
      (ofText front).pieces.filterMap Piece.token? ++
        tokens.map (Token.shift (1 + front.count '\n')) := by
  have hstop : ((ofText back).stop.map (Piece.shift (1 + front.count '\n'))).bind
      (·.segment.unreadable?) = (ofText back).stop.bind (·.segment.unreadable?) := by
    rw [Option.bind_map]
    rfl
  rw [tokens, ofText_append hfront, hstop, tokens]
  split
  · rfl
  · rw [List.filterMap_append, List.filterMap_cons_none rfl, filterMap_token?_shift]
    simp [Except.map, Token.shift, Token.endOfInput]

theorem readable_of_tokens {text : List Char} {tokens : List Token}
    (h : (ofText text).tokens = .ok tokens) : ∀ s ∈ Segment.split text, s.unreadable? = none := by
  have hnone : (Piece.place .start (Segment.split text)).dropWhile
      (fun piece => piece.segment.unreadable?.isNone) = [] := by
    cases hdrop : (Piece.place .start (Segment.split text)).dropWhile
      fun piece => piece.segment.unreadable?.isNone with
    | nil => rfl
    | cons piece rest =>
        have hstop : (ofText text).stop = some piece := by rw [ofText, hdrop, List.head?_cons]
        have hfirst := Segment.head?_dropWhile_eq_false _ _ piece (by rw [hdrop]; rfl)
        obtain ⟨e, he⟩ : ∃ e, piece.segment.unreadable? = some e := by
          simpa [← Option.not_isSome, Option.isSome_iff_exists] using hfirst
        simp [Scan.tokens, hstop, he] at h
  intro s hs
  rw [← map_segment_place .start (Segment.split text)] at hs
  obtain ⟨piece, hpiece, rfl⟩ := List.mem_map.1 hs
  simpa using List.dropWhile_eq_nil_iff.1 hnone piece hpiece

theorem tokens_of_readable {text : List Char}
    (h : ∀ s ∈ Segment.split text, s.unreadable? = none) : (ofText text).tokens =
      .ok ((ofText text).pieces.filterMap Piece.token? ++ [.endOfInput (ofText text).finish]) := by
  have hstop : (ofText text).stop = none := by rw [ofText_of_readable h]
  rw [tokens, hstop]
  rfl

theorem kind_of_mem_tokens {pieces : List Piece} {t : Token}
    (h : t ∈ pieces.filterMap Piece.token?) : t.kind ≠ .endOfInput := by
  obtain ⟨piece, -, hpiece⟩ := List.mem_filterMap.1 h
  obtain ⟨l, hl, rfl⟩ := Option.map_eq_some_iff.1 hpiece
  exact (Segment.plain_of_lexeme? hl).2

theorem result_eq_ok {text : List Char} {tokens : List Token}
    (h : (ofText text).result = .ok tokens) :
    (ofText text).tokens = .ok tokens ∧ (ofText text).errors = [] := by
  unfold result at h
  split at h
  · cases h
  · split at h
    · rename_i htokens herrors
      exact ⟨htokens.trans (congrArg Except.ok (Except.ok.inj h)), herrors⟩
    · cases h

theorem eq_append_of_result {text : List Char} {tokens : List Token}
    (h : (ofText text).result = .ok tokens) : tokens =
      (ofText text).pieces.filterMap Piece.token? ++ [.endOfInput (ofText text).finish] := by
  have htokens := (result_eq_ok h).1
  rw [tokens_of_readable (readable_of_tokens htokens)] at htokens
  exact (Except.ok.inj htokens).symm

theorem getLast?_of_result {text : List Char} {tokens : List Token}
    (h : (ofText text).result = .ok tokens) :
    (tokens.map Token.kind).getLast? = some .endOfInput := by
  rw [eq_append_of_result h, List.map_append, List.getLast?_append]
  rfl

/-- A text without lexical errors gives its tokens in front of those of the text behind it, and
whatever ends the scan of that text ends the scan of both. -/
theorem result_append {tokens : List Token} (h : (ofText front).result = .ok tokens)
    (back : List Char) : ∃ u p, tokens = u ++ [.endOfInput p] ∧ (∀ t ∈ u, t.kind ≠ .endOfInput) ∧
      (ofText (front ++ '\n' :: back)).result = match (ofText back).result with
        | .ok others => .ok (u ++ others.map (Token.shift (1 + front.count '\n')))
        | .error failure => .error (failure.shift (1 + front.count '\n')) := by
  obtain ⟨htokens, herrors⟩ := result_eq_ok h
  have hfront := readable_of_tokens htokens
  refine ⟨_, _, eq_append_of_result h, fun t ht => kind_of_mem_tokens ht, ?_⟩
  · rw [result, tokens_append hfront, errors_append hfront, herrors, List.nil_append, result]
    cases (ofText back).tokens with
    | error e => rfl
    | ok others =>
        simp only [Except.map, List.map_eq_nil_iff]
        split <;> rfl

end Scan

end Cmm

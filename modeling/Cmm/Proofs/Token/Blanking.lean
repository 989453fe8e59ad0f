import Cmm.Proofs.Token.Clamping

/-!
# Errors as blanks

What is reported as an error is left out as if spaces stood in its place.  The pieces around it are
cut as they were, and no line ends inside it, so that all of them keep their positions.
-/

namespace Cmm

/-! ## Pieces that are reported -/

theorem StringBody.lineFeed_notMem {body : List Char} {bad : Bool} (h : StringBody body bad) :
    '\n' ∉ body := by
  induction h with
  | nil => simp
  | plain _ _ hfeed _ ih => simp [ih, Ne.symm hfeed]
  | escape hfeed _ ih => simp [ih, Ne.symm hfeed]

/-- A piece that is reported, in front of what follows it: a character that begins nothing else, a
string literal up to its closing quote, or one that goes on up to the end of its line. -/
inductive Flaw : List Char → List Char → LexicalCause → Prop
  | illegal {c : Char} {rest : List Char} (hspace : isSpace c = false) :
    Flaw [c] rest (.illegalCharacter c)
  | badString {body rest : List Char} (hbody : StringBody body true) :
    Flaw ('"' :: (body ++ ['"'])) rest .badEscape
  | openString {body tail rest : List Char} {bad : Bool} (hbody : StringBody body bad)
      (htail : tail = [] ∨ tail = ['\\']) (hend : AtLineEnd rest) :
    Flaw ('"' :: (body ++ tail)) rest
      (if bad then .unterminatedBadEscape else .unterminatedString)

theorem Flaw.lineFeed_notMem {text rest : List Char} {cause : LexicalCause}
    (h : Flaw text rest cause) : '\n' ∉ text := by
  cases h with
  | illegal hspace =>
      rw [List.mem_singleton]
      rintro rfl
      cases hspace
  | badString hbody => simp [hbody.lineFeed_notMem]
  | openString hbody htail => rcases htail with rfl | rfl <;> simp [hbody.lineFeed_notMem]

namespace Segment

variable {s : Segment} {rest : List Char} {cause : LexicalCause}

theorem content_of_cause? (h : s.cause? = some cause) : s.content = .malformed cause := by
  unfold cause? at h
  split at h
  · rename_i hcontent
    rw [hcontent, Option.some.inj h]
  · cases h

theorem Stands.flaw (h : s.Stands rest) (hcause : s.cause? = some cause) :
    Flaw s.text rest cause := by
  cases h with
  | illegal hblank =>
      obtain rfl := Option.some.inj hcause
      rw [← isSpace_iff_mem, Bool.not_eq_true] at hblank
      exact .illegal hblank
  | badString hbody =>
      obtain rfl := Option.some.inj hcause
      exact .badString hbody
  | openString hbody htail hend =>
      obtain rfl := Option.some.inj hcause
      exact .openString hbody htail hend
  | _ => cases hcause

/-! ## Spaces in their place -/

def blankedText (s : Segment) : List Char :=
  match s.cause? with
  | none => s.text
  | some _ => List.replicate s.text.length ' '

def space : Segment := ⟨[' '], .blank⟩

/-- What the blanked characters of a piece are cut into. -/
def blanked (s : Segment) : List Segment :=
  match s.cause? with
  | none => [s]
  | some _ => List.replicate s.text.length space

theorem length_blankedText (s : Segment) : s.blankedText.length = s.text.length := by
  unfold blankedText
  split <;> simp

theorem length_flatMap_blankedText (segments : List Segment) :
    (segments.flatMap blankedText).length = (segments.flatMap text).length := by
  simp [List.length_flatMap, length_blankedText]

theorem head?_flatMap_blankedText {text : List Char} {segments : List Segment}
    (h : Tiles text segments) :
    (AtLineEnd text → AtLineEnd (segments.flatMap blankedText)) ∧
      ∀ d ∈ (segments.flatMap blankedText).head?, d ∈ text.head? ∨ isSpace d = true := by
  cases h with
  | nil => exact ⟨id, nofun⟩
  | @cons s rest segments hs _ =>
      obtain ⟨c, more, htext⟩ := List.exists_cons_of_ne_nil hs.ne_nil
      cases hcause : s.cause? with
      | none => simp [blankedText, hcause, htext, AtLineEnd]
      | some cause =>
          have hfeed := (hs.flaw hcause).lineFeed_notMem
          constructor
          · intro hend
            obtain rfl := hend c (by simp [htext])
            exact absurd (by simp [htext]) hfeed
          · simp [blankedText, hcause, htext, List.replicate_succ, isSpace]

theorem tiles_replicate_space {rest : List Char} {segments : List Segment} (h : Tiles rest segments)
    (n : Nat) : Tiles (List.replicate n ' ' ++ rest) (List.replicate n space ++ segments) := by
  induction n with
  | zero => exact h
  | succ n ih => exact .cons (.blank (by simp)) ih

/-- No piece is cut in another way because of spaces in the place of others. -/
theorem tiles_blanked {text : List Char} {segments : List Segment} (h : Tiles text segments) :
    Tiles (segments.flatMap blankedText) (segments.flatMap blanked) := by
  induction h with
  | nil => exact .nil
  | @cons s rest segments hs hrest ih =>
      rw [List.flatMap_cons, List.flatMap_cons]
      cases hcause : s.cause? with
      | none =>
          obtain ⟨hline, hhead⟩ := head?_flatMap_blankedText hrest
          simpa [blankedText, blanked, hcause] using Tiles.cons (hs.of_head? hline hhead) ih
      | some cause =>
          simpa [blankedText, blanked, hcause] using tiles_replicate_space ih s.text.length

theorem cause?_of_mem_blanked {s t : Segment} (h : t ∈ s.blanked) : t.cause? = none := by
  unfold blanked at h
  split at h
  · rename_i hcause
    rwa [List.mem_singleton.1 h]
  · rw [List.eq_of_mem_replicate h]
    rfl

theorem unreadable?_of_mem_blanked {s t : Segment} (hs : s.unreadable? = none)
    (h : t ∈ s.blanked) : t.unreadable? = none := by
  unfold blanked at h
  split at h
  · rwa [List.mem_singleton.1 h]
  · rw [List.eq_of_mem_replicate h]
    rfl

end Segment

/-! ## Positions -/

theorem Position.after_of_lineFeed_notMem {text : List Char} (h : '\n' ∉ text) (p : Position) :
    p.after text = ⟨p.line, p.column + text.length⟩ := by
  induction text generalizing p with
  | nil => simp
  | cons c rest ih =>
      rw [List.mem_cons, not_or] at h
      rw [after_cons, ih h.2, next, if_neg (Ne.symm h.1)]
      simp [Int.add_assoc, Int.add_comm 1]

theorem Position.after_replicate_space {text : List Char} (h : '\n' ∉ text) (p : Position) :
    p.after (List.replicate text.length ' ') = p.after text := by
  have hspaces : '\n' ∉ List.replicate text.length ' ' := by simp [List.mem_replicate]
  rw [after_of_lineFeed_notMem h, after_of_lineFeed_notMem hspaces, List.length_replicate]

namespace Segment

theorem Stands.after_blankedText {s : Segment} {rest : List Char} (h : s.Stands rest)
    (p : Position) : p.after s.blankedText = p.after s.text := by
  unfold blankedText
  split
  · rfl
  · rename_i hcause
    exact Position.after_replicate_space (h.flaw hcause).lineFeed_notMem p

theorem after_flatMap_blankedText {text : List Char} {segments : List Segment}
    (h : Tiles text segments) (p : Position) :
    p.after (segments.flatMap blankedText) = p.after text := by
  induction h generalizing p with
  | nil => rfl
  | cons hs _ ih =>
      rw [List.flatMap_cons, Position.after_append, Position.after_append, hs.after_blankedText, ih]

end Segment

namespace Piece

variable {β : Type} {f : Piece → Option β}

theorem filterMap_place_replicate (hspace : ∀ p, f ⟨p, .space⟩ = none) (n : Nat) (p : Position) :
    (place p (List.replicate n .space)).filterMap f = [] := by
  induction n generalizing p with
  | zero => rfl
  | succ n ih => rw [List.replicate_succ, place, List.filterMap_cons_none (hspace p), ih]

theorem filterMap_place_blanked (hspace : ∀ p, f ⟨p, .space⟩ = none)
    (hreported : ∀ p s cause, s.cause? = some cause → f ⟨p, s⟩ = none) {text : List Char}
    {segments : List Segment} (h : Tiles text segments) (p : Position) :
    (place p (segments.flatMap Segment.blanked)).filterMap f =
      (place p segments).filterMap f := by
  induction h generalizing p with
  | nil => rfl
  | @cons s rest segments hs _ ih =>
      cases hcause : s.cause? with
      | none => simp [Segment.blanked, hcause, place, List.filterMap_cons, ih]
      | some cause =>
          have hfeed := (hs.flaw hcause).lineFeed_notMem
          have hblanked : s.blanked = List.replicate s.text.length .space := by
            simp [Segment.blanked, hcause]
          have htext : (List.replicate s.text.length Segment.space).flatMap Segment.text =
              List.replicate s.text.length ' ' := by
            simp [List.flatMap_replicate, Segment.space]
          rw [List.flatMap_cons, hblanked, Scan.place_append, List.filterMap_append,
            filterMap_place_replicate hspace, htext, Position.after_replicate_space hfeed, ih,
            List.nil_append, place, List.filterMap_cons_none (hreported p s cause hcause)]

end Piece

/-! ## Scans -/

theorem Piece.token?_of_cause? {p : Position} {s : Segment} {cause : LexicalCause}
    (h : s.cause? = some cause) : token? ⟨p, s⟩ = none := by
  simp [token?, Segment.lexeme?, Segment.content_of_cause? h]

theorem Piece.warning?_of_cause? {p : Position} {s : Segment} {cause : LexicalCause}
    (h : s.cause? = some cause) : warning? ⟨p, s⟩ = none := by
  simp [warning?, Segment.isTooLarge, Segment.content_of_cause? h]

theorem Piece.filterMap_error?_eq_nil {p : Position} {segments : List Segment}
    (h : ∀ s ∈ segments, s.cause? = none) : (place p segments).filterMap error? = [] := by
  rw [List.filterMap_eq_nil_iff]
  intro piece hpiece
  rw [error?, h _ (mem_of_mem_place hpiece), Option.map_none]

/-- There is exactly one way to cut a source text into pieces.  If none of its numbers has more
digits than are allowed, its errors are those of the illegal characters and malformed string
literals among the pieces, and the text with as many spaces in their place has no errors, the same
tokens at the same positions, up to the end of the input, and the same warnings. -/
theorem scan_blanked (source : String) : ∃ segments : List Segment,
    (∀ other, Tiles source.toList other ↔ other = segments) ∧
    (∀ before s after, segments = before ++ s :: after → ∀ cause, s.cause? = some cause →
      Flaw s.text (after.flatMap Segment.text) cause) ∧
    ((∀ s ∈ segments, ¬s.Overlong) →
      let blanked := segments.flatMap Segment.blankedText
      (Scan.ofText source.toList).errors = (Piece.behind [] segments).filterMap Piece.error? ∧
      blanked.length = source.toList.length ∧
      (Scan.ofText blanked).errors = [] ∧
      (∃ tokens, (Scan.ofText source.toList).tokens = .ok tokens ∧
        (Scan.ofText blanked).tokens = .ok tokens) ∧
      (Scan.ofText blanked).warnings = (Scan.ofText source.toList).warnings) := by
  have htiles := tiles_split source.toList
  refine ⟨_, fun other => tiles_iff, fun before s after hsplit cause hcause => ?_, fun hshort => ?_⟩
  · exact (hsplit ▸ htiles).stands.flaw hcause
  have hblanked := Segment.tiles_blanked htiles
  have hread : ∀ s ∈ Segment.split source.toList, s.unreadable? = none :=
    fun s hs => Segment.readable_of_not_overlong hs (hshort s hs)
  have hreadBlanked : ∀ t ∈ Segment.split ((Segment.split source.toList).flatMap
      Segment.blankedText), t.unreadable? = none := by
    rw [← tiles_iff.1 hblanked]
    intro t ht
    obtain ⟨s, hs, ht⟩ := List.mem_flatMap.1 ht
    exact Segment.unreadable?_of_mem_blanked (hread s hs) ht
  have hscan := Scan.ofText_of_readable hread
  have hscanBlanked := Scan.ofText_of_readable hreadBlanked
  rw [← tiles_iff.1 hblanked, Segment.after_flatMap_blankedText htiles] at hscanBlanked
  refine ⟨?_, ?_, ?_, ⟨_, Scan.tokens_of_readable hread, ?_⟩, ?_⟩
  · rw [Scan.errors, htiles.ofText_eq hread]
  · rw [Segment.length_flatMap_blankedText, htiles.flatMap_text]
  · rw [Scan.errors, hscanBlanked]
    apply Piece.filterMap_error?_eq_nil
    intro t ht
    obtain ⟨s, -, ht⟩ := List.mem_flatMap.1 ht
    exact Segment.cause?_of_mem_blanked ht
  · rw [Scan.tokens_of_readable hreadBlanked, hscanBlanked, hscan]
    simp only
    rw [Piece.filterMap_place_blanked (fun _ => rfl) (fun _ _ _ => Piece.token?_of_cause?) htiles]
  · rw [Scan.warnings, Scan.warnings, hscanBlanked, hscan]
    exact Piece.filterMap_place_blanked (fun _ => rfl) (fun _ _ _ => Piece.warning?_of_cause?)
      htiles _

private def stainedText : String := "a\"\\q\"b@3000000000\"c"

private def stainedSegments : List Segment :=
  [⟨['a'], .word⟩, ⟨['"', '\\', 'q', '"'], .malformed .badEscape⟩, ⟨['b'], .word⟩,
    ⟨['@'], .malformed (.illegalCharacter '@')⟩, ⟨"3000000000".toList, .number 3000000000⟩,
    ⟨['"', 'c'], .malformed .unterminatedString⟩]

theorem scan_blanked_of_stains :
    (∀ s ∈ Segment.split stainedText.toList, ¬s.Overlong) ∧
    (Segment.split stainedText.toList).flatMap Segment.blankedText =
      "a    b 3000000000  ".toList ∧
    (Scan.ofText stainedText.toList).errors =
      [⟨.badEscape, ⟨1, 2⟩⟩, ⟨.illegalCharacter '@', ⟨1, 7⟩⟩, ⟨.unterminatedString, ⟨1, 18⟩⟩] ∧
    (Scan.ofText "a    b 3000000000  ".toList).errors = [] ∧
    (∃ tokens, (Scan.ofText stainedText.toList).tokens = .ok tokens ∧
      (Scan.ofText "a    b 3000000000  ".toList).tokens = .ok tokens) ∧
    (Scan.ofText "a    b 3000000000  ".toList).warnings =
      (Scan.ofText stainedText.toList).warnings := by
  have hsplit : Segment.split stainedText.toList = stainedSegments := by decide +kernel
  have hblanked : stainedSegments.flatMap Segment.blankedText = "a    b 3000000000  ".toList := by
    decide
  have hshort : ∀ s ∈ stainedSegments, ¬s.Overlong := by
    rw [← hsplit]
    exact Segment.not_overlong_of_length_le (by decide)
  obtain ⟨segments, htiles, -, hscan⟩ := scan_blanked stainedText
  obtain rfl : stainedSegments = segments := (htiles _).1 (tiles_iff.2 hsplit.symm)
  obtain ⟨herrors, -, hnone, htokens, hwarnings⟩ := hscan hshort
  rw [hblanked] at hnone htokens hwarnings
  rw [hsplit]
  exact ⟨hshort, hblanked, herrors.trans (by decide), hnone, htokens, hwarnings⟩

end Cmm

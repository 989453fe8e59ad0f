import Cmm.Proofs.Token.Concatenation
import Cmm.Text.LineEnds

/-!
# Carriage returns in printed texts

In a text as it is printed a carriage return stands in a string literal only.  Where a line feed
takes its place the literal is not closed on its line, so that the text is refused.
-/

namespace Cmm

/-! ## Pieces with carriage returns -/

/-- Of the pieces that a printed text is cut into, only string literals hold carriage returns. -/
theorem Segment.Stands.string_of_return {s : Segment} {rest : List Char} (h : s.Stands rest)
    (hclean : s.Clean) (hreturn : '\r' ∈ s.text) :
    ∃ body, s = ⟨'"' :: (body ++ ['"']), .string⟩ ∧ StringBody body false := by
  cases h with
  | blank hc => exact absurd hreturn (hclean.blank rfl)
  | comment => exact absurd rfl hclean.comment
  | @word c more _ hc hmore =>
      have hparts : ∀ d ∈ c :: more, isWordPart d = true :=
        List.forall_mem_cons.2 ⟨isWordPart_of_isWordStart hc, hmore⟩
      have hpart := hparts _ hreturn
      rw [isWordPart_eq_false_of_isSpace rfl] at hpart
      cases hpart
  | number _ hdigits => cases hdigits _ hreturn
  | longNumber => cases hclean.unreadable
  | string hbody => exact ⟨_, rfl, hbody⟩
  | badString => cases hclean.cause
  | openString => cases hclean.cause
  | @pair sign _ _ _ hsign => exact absurd (hsign ▸ hreturn) (sign.notMem_spelling_of_isSpace rfl)
  | @single sign _ _ hsign => exact absurd (hsign ▸ hreturn) (sign.notMem_spelling_of_isSpace rfl)
  | illegal => cases hclean.cause

/-- A literal up to a carriage return: no backslash stands in front of that. -/
theorem StringBody.of_return {body front back : List Char} {bad : Bool} (h : StringBody body bad)
    (hbad : bad = false) (heq : body = front ++ '\r' :: back) : StringBody front false := by
  induction h generalizing front with
  | nil => simp at heq
  | plain hquote hback hfeed _ ih =>
      cases front with
      | nil => exact .nil
      | cons d front =>
          obtain ⟨rfl, htail⟩ := List.cons.inj heq
          exact .plain hquote hback hfeed (ih hbad htail)
  | @escape c rest bad hfeed _ ih =>
      obtain ⟨hescape, rfl⟩ : isEscape c = true ∧ bad = false := by simpa using hbad
      cases front with
      | nil => cases heq
      | cons d front =>
          obtain ⟨rfl, htail⟩ := List.cons.inj heq
          cases front with
          | nil =>
              obtain ⟨rfl, -⟩ := List.cons.inj htail
              cases hescape
          | cons e front =>
              obtain ⟨rfl, hrest⟩ := List.cons.inj htail
              have hfront := StringBody.escape hfeed (ih rfl hrest)
              rwa [hescape] at hfront

theorem Segment.Stands.congr_head {s : Segment} {rest rest' : List Char} (h : s.Stands rest)
    (hhead : rest.head? = rest'.head?) : s.Stands rest' :=
  h.of_head? (fun hend d hd => hend d (hhead ▸ hd)) fun _ hd => .inl (hhead ▸ hd)

theorem Tiles.congr_head {before after segments : List Segment} {text rest : List Char}
    (h : Tiles text (before ++ after)) (hrest : Tiles rest segments)
    (hhead : (after.flatMap Segment.text).head? = rest.head?) :
    Tiles (before.flatMap Segment.text ++ rest) (before ++ segments) := by
  induction before generalizing text with
  | nil => exact hrest
  | cons s before ih =>
      cases h with
      | cons hs htail =>
          rw [List.flatMap_cons, List.append_assoc]
          refine .cons (hs.congr_head ?_) (ih htail)
          change Tiles _ (before ++ after) at htail
          rw [← htail.flatMap_text, List.flatMap_append, List.head?_append, List.head?_append, hhead]

theorem Segment.exists_first_of_mem {c : Char} {segments : List Segment}
    (h : c ∈ segments.flatMap text) : ∃ before s after, segments = before ++ s :: after ∧
      c ∉ before.flatMap text ∧ c ∈ s.text := by
  induction segments with
  | nil => cases h
  | cons s rest ih =>
      by_cases hs : c ∈ s.text
      · exact ⟨[], s, rest, rfl, by simp, hs⟩
      · rw [List.flatMap_cons, List.mem_append] at h
        obtain ⟨before, t, after, rfl, hbefore, ht⟩ := ih (h.resolve_left hs)
        exact ⟨s :: before, t, after, rfl, by simpa [hs] using hbefore, ht⟩

/-! ## Line feeds in their place -/

namespace Text

theorem unifyLineEnds_return (back : List Char) :
    ∃ rest, unifyLineEnds ('\r' :: back) = '\n' :: rest := by
  rw [unifyLineEnds.eq_def]
  split
  · rename_i heq
    cases heq
  · exact ⟨_, rfl⟩
  · rename_i heq
    cases heq
    exact ⟨_, rfl⟩

theorem unifyLineEnds_cons {c : Char} (hc : c ≠ '\r') (rest : List Char) :
    unifyLineEnds (c :: rest) = c :: unifyLineEnds rest := by
  rw [unifyLineEnds, if_neg hc]
  exact fun _ h _ => hc h

/-- The first carriage return of a text turns into a line feed. -/
theorem unifyLineEnds_append {front : List Char} (hfront : '\r' ∉ front) (back : List Char) :
    ∃ rest, unifyLineEnds (front ++ '\r' :: back) = front ++ '\n' :: rest := by
  induction front with
  | nil => exact unifyLineEnds_return back
  | cons c front ih =>
      rw [List.mem_cons, not_or] at hfront
      obtain ⟨hc, hfront⟩ := hfront
      obtain ⟨rest, hrest⟩ := ih hfront
      exact ⟨rest, by rw [List.cons_append, unifyLineEnds_cons (Ne.symm hc), hrest]; rfl⟩

end Text

theorem Scan.exists_failure {text : List Char} {s : Segment} {cause : LexicalCause}
    (hs : s ∈ Segment.split text) (hcause : s.cause? = some cause) :
    ∃ failure, (ofText text).result = .error failure := by
  cases hresult : (ofText text).result with
  | error failure => exact ⟨failure, rfl⟩
  | ok tokens =>
      obtain ⟨htokens, herrors⟩ := result_eq_ok hresult
      have hscan := (tiles_split text).ofText_eq (readable_of_tokens htokens)
      rw [errors, hscan, List.filterMap_eq_nil_iff] at herrors
      rw [← Piece.map_segment_behind [] (Segment.split text)] at hs
      obtain ⟨piece, hpiece, rfl⟩ := List.mem_map.1 hs
      have herror := herrors piece hpiece
      rw [Piece.error?, hcause] at herror
      cases herror

theorem exists_failure_of_return {text : List Char}
    (hclean : ∀ s ∈ Segment.split text, s.Clean) (hreturn : '\r' ∈ text) :
    ∃ failure, (Scan.ofText (Text.unifyLineEnds text)).result = .error failure := by
  have htiles := tiles_split text
  rw [← htiles.flatMap_text] at hreturn
  obtain ⟨before, s, after, hsplit, hbefore, hs⟩ := Segment.exists_first_of_mem hreturn
  rw [hsplit] at htiles hclean
  obtain ⟨body, rfl, hbody⟩ := htiles.stands.string_of_return (hclean s (by simp)) hs
  obtain ⟨front, back, rfl, hfront⟩ : ∃ front back, body = front ++ '\r' :: back ∧ '\r' ∉ front := by
    apply List.eq_append_cons_of_mem
    simpa using hs
  have htext : text = (before.flatMap Segment.text ++ '"' :: front) ++
      '\r' :: (back ++ '"' :: after.flatMap Segment.text) := by
    rw [← htiles.flatMap_text]
    simp
  have hnone : '\r' ∉ before.flatMap Segment.text ++ '"' :: front := by simp [hbefore, hfront]
  obtain ⟨rest, hunified⟩ :=
    Text.unifyLineEnds_append hnone (back ++ '"' :: after.flatMap Segment.text)
  rw [← htext, List.append_assoc] at hunified
  have hopen : Segment.Stands ⟨'"' :: (front ++ []), .malformed .unterminatedString⟩
      ('\n' :: rest) := by
    refine .openString (hbody.of_return rfl rfl) (.inl rfl) ?_
    simp [AtLineEnd]
  rw [List.append_nil] at hopen
  have hrefused := htiles.congr_head (.cons hopen (tiles_split _)) rfl
  change Tiles (before.flatMap Segment.text ++ ('"' :: front ++ '\n' :: rest)) _ at hrefused
  rw [← hunified] at hrefused
  apply Scan.exists_failure (s := ⟨'"' :: front, .malformed .unterminatedString⟩)
  · rw [← tiles_iff.1 hrefused]
    simp
  · rfl

/-! ## Spelled texts -/

theorem Segment.text_of_string {s : Segment} {raw : String} (h : s.lexeme? = some (.string raw)) :
    raw.toList = s.text := by
  unfold lexeme? at h
  split at h
  · unfold Lexeme.ofWord at h
    split at h
    · cases h
    · cases h
  · cases h
  · cases h
    exact String.toList_ofList
  · cases h
  all_goals cases h

theorem Spelled.return_mem_iff {text : List Char} {ls : List Lexeme} {next : Char → Prop}
    (h : Spelled text ls next) :
    '\r' ∈ text ↔ ∃ raw, Lexeme.string raw ∈ ls ∧ '\r' ∈ raw.toList := by
  obtain ⟨hls, hclean⟩ := h.split_eq
  have htext := Segment.flatMap_text_split text
  constructor
  · intro hreturn
    rw [← htext, List.mem_flatMap] at hreturn
    obtain ⟨s, hs, hreturn⟩ := hreturn
    obtain ⟨rest, hstands⟩ := (tiles_split text).exists_stands s hs
    obtain ⟨body, rfl, -⟩ := hstands.string_of_return (hclean s hs) hreturn
    refine ⟨String.ofList ('"' :: (body ++ ['"'])), ?_, ?_⟩
    · rw [← hls]
      exact List.mem_filterMap.2 ⟨_, hs, rfl⟩
    · rwa [String.toList_ofList]
  · rintro ⟨raw, hraw, hreturn⟩
    rw [← hls] at hraw
    obtain ⟨s, hs, hlexeme⟩ := List.mem_filterMap.1 hraw
    rw [← htext, List.mem_flatMap]
    refine ⟨s, hs, ?_⟩
    rwa [← Segment.text_of_string hlexeme]

end Cmm

import Cmm.Proofs.Token.Concatenation

/-!
# The order of a text

Positions are ordered as the characters are that stand there.  No piece of a text is empty, so the
tokens of a scan, up to the end of the input, stand at positions that increase.
-/

namespace Cmm

namespace Position

def Before (p q : Position) : Prop :=
  p.line < q.line ∨ p.line = q.line ∧ p.column < q.column

theorem not_before_self (p : Position) : ¬p.Before p := by
  simp [Before]

theorem before_behind_append (front : List Char) {more : List Char} (hmore : more ≠ []) :
    (behind front).Before (behind (front ++ more)) := by
  have hlength := List.length_pos_iff.2 hmore
  by_cases hfeed : '\n' ∈ more
  · have hpos := List.count_pos_iff.2 hfeed
    refine .inl ?_
    simp only [behind, List.count_append]
    omega
  · have hrun : ∀ c ∈ more.reverse, decide (c ≠ '\n') = true := by
      intro c hc
      have hne : c ≠ '\n' := by
        rintro rfl
        exact hfeed (List.mem_reverse.1 hc)
      simpa using hne
    have hnone := List.count_eq_zero.2 hfeed
    refine .inr ⟨?_, ?_⟩
    · simp only [behind, List.count_append]
      omega
    · simp only [behind, List.reverse_append]
      rw [List.takeWhile_append_of_pos hrun, List.length_append, List.length_reverse]
      omega

theorem behind_append_ne (front : List Char) {more : List Char} (hmore : more ≠ []) :
    behind (front ++ more) ≠ behind front := by
  intro h
  have hbefore := before_behind_append front hmore
  rw [h] at hbefore
  exact not_before_self _ hbefore

end Position

def Increasing (tokens : List Token) : Prop :=
  tokens.Pairwise fun s t => s.position.Before t.position

theorem Segment.Stands.ne_nil {s : Segment} {rest : List Char} (h : s.Stands rest) :
    s.text ≠ [] := by
  obtain ⟨c, more, htext, -⟩ := h.first_eq
  rw [htext]
  exact List.cons_ne_nil c more

namespace Piece

theorem exists_of_mem_behind {front : List Char} {segments : List Segment} {piece : Piece}
    (h : piece ∈ behind front segments) : piece.segment ∈ segments ∧ ∃ u v,
      segments.flatMap Segment.text = u ++ (piece.segment.text ++ v) ∧
        piece.position = .behind (front ++ u) := by
  induction segments generalizing front with
  | nil => cases h
  | cons s rest ih =>
      rw [behind] at h
      rcases List.mem_cons.1 h with rfl | h
      · exact ⟨by simp, [], rest.flatMap Segment.text, by simp, by simp⟩
      · obtain ⟨hmem, u, v, htext, hposition⟩ := ih h
        refine ⟨List.mem_cons_of_mem _ hmem, s.text ++ u, v, ?_, ?_⟩
        · rw [List.flatMap_cons, htext, List.append_assoc]
        · rw [hposition, List.append_assoc]

theorem pairwise_behind {segments : List Segment} (hne : ∀ s ∈ segments, s.text ≠ [])
    (front : List Char) :
    (behind front segments).Pairwise (fun a b => a.position.Before b.position) ∧
      ∀ piece ∈ behind front segments,
        piece.position.Before (.behind (front ++ segments.flatMap Segment.text)) := by
  induction segments generalizing front with
  | nil => exact ⟨.nil, nofun⟩
  | cons s rest ih =>
      obtain ⟨hs, hrest⟩ := List.forall_mem_cons.1 hne
      obtain ⟨hpairs, hend⟩ := ih hrest (front ++ s.text)
      rw [List.append_assoc, ← List.flatMap_cons] at hend
      refine ⟨.cons ?_ hpairs, List.forall_mem_cons.2 ⟨?_, hend⟩⟩
      · intro piece hpiece
        obtain ⟨-, u, v, -, hposition⟩ := exists_of_mem_behind hpiece
        rw [hposition, List.append_assoc]
        exact Position.before_behind_append front (by simp [hs])
      · exact Position.before_behind_append front (by simp [hs])

theorem position_of_token? {piece : Piece} {t : Token} (h : piece.token? = some t) :
    t.position = piece.position := by
  obtain ⟨l, -, rfl⟩ := Option.map_eq_some_iff.1 h
  rfl

end Piece

namespace Scan

/-- The tokens of a scan stand in the order of the text. -/
theorem increasing_of_tokens {text : List Char} {tokens : List Token}
    (h : (ofText text).tokens = .ok tokens) : Increasing tokens := by
  have hread := readable_of_tokens h
  have htiles := tiles_split text
  rw [tokens_of_readable hread, htiles.ofText_eq hread] at h
  rw [← Except.ok.inj h]
  have hne : ∀ s ∈ Segment.split text, s.text ≠ [] := by
    intro s hs
    obtain ⟨rest, hstands⟩ := htiles.exists_stands s hs
    exact hstands.ne_nil
  obtain ⟨hpairs, hend⟩ := Piece.pairwise_behind hne []
  rw [List.nil_append, htiles.flatMap_text] at hend
  refine List.pairwise_append.2 ⟨?_, List.pairwise_singleton .., ?_⟩
  · refine List.pairwise_filterMap.2 (hpairs.imp ?_)
    intro a b hab s hs t ht
    rwa [Piece.position_of_token? hs, Piece.position_of_token? ht]
  · intro t ht last hlast
    obtain ⟨piece, hpiece, ht⟩ := List.mem_filterMap.1 ht
    obtain rfl := List.mem_singleton.1 hlast
    rw [Piece.position_of_token? ht]
    exact hend piece hpiece

end Scan

end Cmm

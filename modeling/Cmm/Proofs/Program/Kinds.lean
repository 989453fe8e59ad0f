import Cmm.Proofs.Program.Compared
import Cmm.Proofs.Program.RoundTrip

/-!
# Kinds decide

What is made of a list of tokens depends on their kinds; their values and positions are only handed
on.  So sources with the same lexemes have the same trees and the same text, however they are laid
out.
-/

namespace Cmm

def Token.SameIndex (tokens others : List Token) (t u : Token) : Prop :=
  ∃ i : Nat, tokens[i]? = some t ∧ others[i]? = some u

namespace Token

variable {tokens others : List Token}

theorem SameIndex.kind_eq (hkinds : tokens.map Token.kind = others.map Token.kind) {t u : Token}
    (h : SameIndex tokens others t u) : t.kind = u.kind := by
  obtain ⟨i, ht, hu⟩ := h
  have hi := congrArg (fun kinds => kinds[i]?) hkinds
  simpa [ht, hu] using hi

theorem forall₂_sameIndex (hlength : tokens.length = others.length) :
    List.Forall₂ (SameIndex tokens others) tokens others := by
  rw [List.forall₂_iff_get]
  refine ⟨hlength, fun i hi hi' => ⟨i, ?_, ?_⟩⟩
  · exact List.getElem?_eq_getElem hi
  · exact List.getElem?_eq_getElem hi'

end Token

theorem map_closeInput_eq {α : Type} {f : Token → α} (hkind : ∀ t u, f t = f u → t.kind = u.kind)
    (hend : ∀ p q, f (.endOfInput p) = f (.endOfInput q)) {tokens others : List Token}
    (h : tokens.map f = others.map f) : (closeInput tokens).map f = (closeInput others).map f := by
  have hlast := congrArg List.getLast? h
  rw [List.getLast?_map, List.getLast?_map] at hlast
  unfold closeInput
  cases hlast' : tokens.getLast? with
  | none =>
      rw [hlast'] at hlast
      rw [Option.map_eq_none_iff.1 hlast.symm]
  | some last =>
      rw [hlast'] at hlast
      obtain ⟨other, hother, hf⟩ := Option.map_eq_some_iff.1 hlast.symm
      rw [hother]
      dsimp only
      rw [hkind _ _ hf]
      split
      · exact h
      · rw [List.map_append, List.map_append, h, List.map_singleton, List.map_singleton, hend]

theorem forall₂_of_map_eq {α β : Type} {f : α → β} {xs ys : List α} (h : xs.map f = ys.map f) :
    List.Forall₂ (fun x y => f x = f y) xs ys := by
  rw [← List.forall₂_eq_eq_eq, List.forall₂_map_left_iff, List.forall₂_map_right_iff] at h
  exact h

theorem Parser.not_exhausts_program (limits : Limits) (tokens : List Token) :
    ¬Exhausts (program limits) (Cursor.ofTokens tokens) := by
  intro h
  have hruns := runs_program limits (fun h : False => h.elim) (Cursor.closed_ofTokens tokens)
  unfold Exhausts Ends at h
  split at h
  · exact h
  · rename_i e d hrun
    obtain ⟨u, d', -, hstops, -⟩ := hruns.of_error hrun
    exact hstops.ne_exhausted h

theorem Parser.tokens_of_program (limits : Limits) (tokens : List Token) :
    (program limits).Ends (Cursor.ofTokens tokens) (fun _ c => c.tokens = closeInput tokens)
      fun _ c => c.tokens = closeInput tokens := by
  have hruns := runs_program limits (fun h : False => h.elim) (Cursor.closed_ofTokens tokens)
  refine hruns.imp ?_ ?_
  · rintro p c ⟨u, hu, -⟩
    rw [hu.tokens, Cursor.tokens_ofTokens]
  · rintro e c ⟨u, d, hu, hstops, -⟩
    obtain ⟨hbefore, hahead⟩ := hstops.same
    rw [← Cursor.tokens_ofTokens, ← hu.tokens]
    change c.before.reverse ++ c.ahead = d.before.reverse ++ d.ahead
    rw [hbefore, hahead]

/-- Runs over lists all of whose tokens are paired end in the same way, at the same place. -/
theorem Parser.sameEnd_program (limits : Limits) {P : Token → Token → Prop}
    (hP : ∀ {t u : Token}, P t u → t.kind = u.kind) {tokens others : List Token}
    (h : List.Forall₂ P (closeInput tokens) (closeInput others)) :
    Agree.SameEnd (.whole P hP) (program limits (Cursor.ofTokens tokens))
      (program limits (Cursor.ofTokens others)) := by
  apply agree_program.sameEnd rfl
  · refine ⟨Cursor.closed_ofTokens tokens, ?_, _, _, h, ?_, ?_⟩
    · rw [Cursor.depth_ofTokens, Cursor.depth_ofTokens]
    · exact (Cursor.ahead_ofTokens tokens).trans (List.append_nil _).symm
    · exact (Cursor.ahead_ofTokens others).trans (List.append_nil _).symm
  · exact not_exhausts_program limits tokens
  · exact not_exhausts_program limits others

theorem Cursor.index_add_length_ahead (c : Cursor) :
    c.index + c.ahead.length = c.tokens.length := by
  simp [index, ahead, tokens]

theorem Overlap.Beside.index_eq_of_length {S : Overlap} {c d : Cursor} (h : S.Beside c d)
    (hlength : c.tokens.length + S.other.length = d.tokens.length + S.rest.length) :
    c.index = d.index := by
  obtain ⟨u, v, huv, hc, hd⟩ := h.ahead
  have hahead := congrArg List.length hc
  have hahead' := congrArg List.length hd
  have huv' := huv.length_eq
  have hindex := c.index_add_length_ahead
  have hindex' := d.index_add_length_ahead
  rw [List.length_append] at hahead hahead'
  omega

theorem Overlap.Beside.index_eq {S : Overlap} {c d : Cursor} (h : S.Beside c d)
    (hrest : S.rest.length = S.other.length) (hlength : c.tokens.length = d.tokens.length) :
    c.index = d.index :=
  h.index_eq_of_length (by omega)

theorem Program.ofText_of_result (limits : Limits) {source : String} {tokens : List Token}
    (h : (Scan.ofText source.toList).result = .ok tokens) :
    ofText limits source = (ofTokens limits tokens).mapError .parsing := by
  rw [ofText, h]
  rfl

theorem Program.ofText_of_scan_error (limits : Limits) {source : String} {failure : ScanFailure}
    (h : (Scan.ofText source.toList).result = .error failure) :
    ofText limits source = .error (.scanning failure) := by
  rw [ofText, h]
  rfl

/-- Two lists of tokens of the same kinds are both read, or both refused.  If they are read, the
trees agree row by row, and names and literals are those of tokens at the same index; if they are
refused, it is with the same message about tokens at the same index.  The cursors are left at the
same index and depth.  So sources with the same lexemes have equal trees and the same text, however
they are laid out and commented. -/
theorem kinds_decide (limits : Limits) :
    (∀ tokens others : List Token, tokens.map Token.kind = others.map Token.kind →
      match Parser.program limits (Cursor.ofTokens tokens),
        Parser.program limits (Cursor.ofTokens others) with
      | .ok p c, .ok q d =>
        List.Forall₂ (Node.Row.Alike (Token.SameIndex (closeInput tokens) (closeInput others)))
          (p.toNode.rows 0 "") (q.toNode.rows 0 "") ∧ c.index = d.index ∧ c.depth = d.depth
      | .error e c, .error e' d =>
        e.message = e'.message ∧
          Option.Rel (Token.SameIndex (closeInput tokens) (closeInput others)) e.token e'.token ∧
          c.index = d.index ∧ c.depth = d.depth
      | _, _ => False) ∧
    ∀ (source other : String) (tokens others : List Token),
      (Scan.ofText source.toList).result = .ok tokens →
      (Scan.ofText other.toList).result = .ok others →
      tokens.map Token.lexeme = others.map Token.lexeme →
      match Program.ofText limits source, Program.ofText limits other with
      | .ok p, .ok q => p.toNode.sameAs q.toNode = true ∧
        (∀ room tab, p.toNode.printWith room tab = q.toNode.printWith room tab) ∧
        ∀ tab indent, p.toNode.print tab indent = q.toNode.print tab indent
      | .error (.parsing e), .error (.parsing e') => e.message = e'.message
      | _, _ => False := by
  constructor
  · intro tokens others hkinds
    have hclosed := map_closeInput_eq (fun _ _ h => h) (fun _ _ => rfl) hkinds
    have hlength : (closeInput tokens).length = (closeInput others).length := by
      simpa using congrArg List.length hclosed
    have hends := Parser.sameEnd_program limits (fun h => h.kind_eq hclosed)
      (Token.forall₂_sameIndex hlength)
    have htokens := Parser.tokens_of_program limits tokens
    have htokens' := Parser.tokens_of_program limits others
    unfold Parser.Ends at htokens htokens'
    generalize Parser.program limits (Cursor.ofTokens tokens) = r at hends htokens ⊢
    generalize Parser.program limits (Cursor.ofTokens others) = r' at hends htokens' ⊢
    cases hends with
    | ok hab hcd =>
        have hrows := Node.Alike.rows hab 0 ""
        exact ⟨hrows, hcd.index_eq rfl (by rw [htokens, htokens', hlength]), hcd.depth⟩
    | error he hcd =>
        have hmessage := congrArg SyntaxCause.message he.cause
        exact ⟨hmessage, he.token, hcd.index_eq rfl (by rw [htokens, htokens', hlength]), hcd.depth⟩
  · intro source other tokens others hsource hother hlexemes
    have hkind : ∀ {t u : Token}, t.lexeme = u.lexeme → t.kind = u.kind :=
      fun h => congrArg Lexeme.kind h
    have hclosed := map_closeInput_eq (fun _ _ h => hkind h) (fun _ _ => rfl) hlexemes
    have hends := Parser.sameEnd_program limits hkind (forall₂_of_map_eq hclosed)
    rw [Program.ofText_of_result limits hsource, Program.ofText_of_result limits hother,
      Program.ofTokens, Program.ofTokens]
    generalize Parser.program limits (Cursor.ofTokens tokens) = r at hends ⊢
    generalize Parser.program limits (Cursor.ofTokens others) = r' at hends ⊢
    cases hends with
    | ok hab hcd =>
        have hsame := Node.Alike.sameAs (fun _ _ h => h) hab
        exact ⟨hsame, Node.printWith_eq_of_sameAs hsame, Node.print_eq_of_sameAs hsame⟩
    | error he hcd => exact congrArg SyntaxCause.message he.cause

private def plainTokens : List Token :=
  [⟨.keyword .int "int", ⟨1, 1⟩⟩, ⟨.name "x", ⟨1, 5⟩⟩, ⟨.symbol .semicolon ";", ⟨1, 6⟩⟩,
    .endOfInput ⟨1, 7⟩]

private def commentedTokens : List Token :=
  [⟨.keyword .int "int", ⟨1, 1⟩⟩, ⟨.name "x", ⟨2, 1⟩⟩, ⟨.symbol .semicolon ";", ⟨2, 2⟩⟩,
    .endOfInput ⟨2, 3⟩]

theorem kinds_decide_of_comment :
    (∃ p q c d, Parser.program {} (Cursor.ofTokens plainTokens) = .ok p c ∧
      Parser.program {} (Cursor.ofTokens commentedTokens) = .ok q d ∧
      List.Forall₂ (Node.Row.Alike (Token.SameIndex plainTokens commentedTokens))
        (p.toNode.rows 0 "") (q.toNode.rows 0 "")) ∧
    ∃ p q, Program.ofText {} "int x;" = .ok p ∧ Program.ofText {} "int#\nx;" = .ok q ∧
      p.toNode.sameAs q.toNode = true := by
  have hplain : (Scan.ofText "int x;".toList).result = .ok plainTokens := by decide +kernel
  have hcommented : (Scan.ofText "int#\nx;".toList).result = .ok commentedTokens := by decide +kernel
  constructor
  · have hruns := (kinds_decide {}).1 plainTokens commentedTokens rfl
    exact ⟨_, _, _, _, rfl, rfl, hruns.1⟩
  · have hp := Program.ofText_of_result {} hplain
    have hq := Program.ofText_of_result {} hcommented
    have hsources := (kinds_decide {}).2 _ _ _ _ hplain hcommented rfl
    rw [hp, hq] at hsources
    exact ⟨_, _, hp, hq, hsources.1⟩

end Cmm

import Cmm.Proofs.Program.Driven
import Cmm.Proofs.Program.Kinds

/-!
# One token of lookahead

To tell a call from a location the parsers look one token ahead, and two to tell a struct from a
variable of a struct type.  What they give depends on the tokens that they take and on the next one
all the same: until a parser comes to the token that it has seen, it does the same on both ways.
-/

namespace Cmm

open Node

/-! ## Runs over common tokens -/

instance : Built Node := builtByTree id

namespace Parser

variable {S : Overlap} {limits : Limits} {c d : Cursor}

theorem Agree.give {α : Type} [Built α] {gap : Nat} {p q : Parser α} {φ ψ : α → List Node}
    (hp : Agree S gap c d p q)
    (h : ∀ a b, Built.Alike S.Pairs a b → AllAlike S.Pairs (φ a) (ψ b)) :
    Agree S 0 c d (do return φ (← p)) (do return ψ (← q)) :=
  Agree.mono (.yield hp h) (Nat.zero_le gap)

theorem agree_unary : Agree S 0 c d (unary limits) (unary limits) :=
  .measured fun m n => (exprAgrees S limits m).unary n c d

theorem agree_primary : Agree S 0 c d (primary limits) (primary limits) :=
  .measured fun m n => (exprAgrees S limits m).primary n c d

theorem agree_binary (minimum : Int) : Agree S 0 c d (binary limits minimum) (binary limits minimum) :=
  .measured fun m n => (exprAgrees S limits m).binary n minimum c d

theorem agree_block : Agree S 1 c d (block limits) (block limits) :=
  .measured fun m n => (stmtAgrees S limits m).block n c d

theorem agree_statement : Agree S 0 c d (statement limits) (statement limits) :=
  .measured fun m n => (stmtAgrees S limits m).statement n c d

theorem agree_entry (hP : ∀ t, S.Pairs t t) (limits : Limits) (entry : Entry) (c d : Cursor) :
    Agree S 0 c d (entry.parse limits) (entry.parse limits) := by
  cases entry with
  | program => exact agree_program.give fun _ _ h => .cons h .nil
  | declaration => exact agree_declaration.give fun _ _ h => .cons h .nil
  | type =>
      apply Agree.current
      intro u hu
      refine agree_primitive.give ?_
      rintro type _ rfl
      exact .cons (.primitive type (S.placed hu)) .nil
  | variableDecl => exact agree_variableDecl.give fun _ _ h => .cons h .nil
  | variableDecls => exact agree_variableDecls.give fun _ _ h => .cons h .nil
  | structDecl => exact agree_structDecl.give fun _ _ h => .cons h .nil
  | formals => exact agree_formals.give fun _ _ h => .cons h .nil
  | body => exact agree_body.give fun _ _ h => .cons h .nil
  | block => exact agree_block.give fun _ _ h => .cons h.1 (.cons h.2 .nil)
  | condition keyword => exact (agree_condition keyword).give fun _ _ h => .cons h .nil
  | statement => exact agree_statement.give fun _ _ h => .cons h .nil
  | expression => exact agree_expression.give fun _ _ h => .cons h .nil
  | binary minimum => exact (agree_binary minimum).give fun _ _ h => .cons h .nil
  | unary => exact agree_unary.give fun _ _ h => .cons h .nil
  | primary => exact agree_primary.give fun _ _ h => .cons h .nil
  | location => exact agree_location.give fun _ _ h => .cons h .nil
  | call => exact agree_call.give fun _ _ h => .cons h .nil
  | name message => exact (agree_name message).give fun _ _ h => .cons h .nil
  | assignment =>
      apply Agree.bind agree_location
      intro lhs lhs' c₁ d₁ hlhs
      exact (agree_assignment hlhs).give fun _ _ h => .cons h .nil
  | assignmentTo lhs =>
      exact (agree_assignment (Built.alike_refl hP lhs)).give fun _ _ h => .cons h .nil

theorem not_exhausts_entry (limits : Limits) (entry : Entry) (hc : c.Closed) :
    ¬Exhausts (entry.parse limits) c := by
  intro hex
  have hend := balanced_entry limits c entry hc
  unfold Exhausts Ends at hex
  split at hex
  · exact hex
  · rename_i e d hrun
    obtain ⟨u, d', -, hstop⟩ := hend.of_error hrun
    exact hstop.ne_exhausted hex

end Parser

theorem SyntaxError.Alike.eq {e e' : SyntaxError} (h : e.Alike (· = ·) e') : e = e' := by
  obtain ⟨cause, t⟩ := e
  obtain ⟨cause', t'⟩ := e'
  obtain ⟨rfl, htoken⟩ := h
  cases htoken with
  | none => rfl
  | some h => rw [h]

namespace Cursor

variable {limits : Limits} {entry : Entry} {c d : Cursor}

theorem index_lt_length (c : Cursor) : c.index < c.tokens.length := by
  simp [index, tokens]

theorem ahead_eq_append {k : Nat} (hk : c.index ≤ k) :
    c.ahead = (c.tokens.take k).drop c.index ++ c.tokens.drop k := by
  have hahead : c.ahead = c.tokens.drop c.index := by
    simp [tokens, index, ahead]
  have hlength := c.index_lt_length
  have hle : c.index ≤ (c.tokens.take k).length := by
    rw [List.length_take]
    omega
  calc
    c.ahead = (c.tokens.take k ++ c.tokens.drop k).drop c.index := by
      rw [hahead, List.take_append_drop]
    _ = (c.tokens.take k).drop c.index ++ c.tokens.drop k := List.drop_append_of_le_length hle

theorem beside_common {k : Nat} (hc : c.Closed) (hindex : d.index = c.index)
    (hdepth : d.depth = c.depth) (hk : c.index ≤ k) (hsame : d.tokens.take k = c.tokens.take k)
    (hrest : d.tokens.drop k = [] → c.tokens.drop k = []) :
    (Overlap.common (c.tokens.drop k) (d.tokens.drop k) hrest).Beside c d := by
  have hd := ahead_eq_append (c := d) (hindex ▸ hk)
  rw [hindex, hsame] at hd
  have hfront : ∀ u : List Token, List.Forall₂ (· = ·) u u :=
    fun u => List.forall₂_same.2 fun _ _ => rfl
  exact ⟨hc, hdepth.symm, _, _, hfront _, ahead_eq_append hk, hd⟩

theorem perform_of_sameEnd {rest other : List Token} {hrest : other = [] → rest = []}
    (hc : c.Closed) (hd : d.Closed)
    (hlength : c.tokens.length + other.length = d.tokens.length + rest.length)
    (h : Parser.Agree.SameEnd (.common rest other hrest) (entry.parse limits c)
      (entry.parse limits d)) :
    (c.perform limits (.parse entry)).1 = (d.perform limits (.parse entry)).1 ∧
      (c.perform limits (.parse entry)).2.index = (d.perform limits (.parse entry)).2.index ∧
      (c.perform limits (.parse entry)).2.depth = (d.perform limits (.parse entry)).2.depth := by
  have htokens := (driven_perform limits hc (.parse entry)).tokens_eq
  have htokens' := (driven_perform limits hd (.parse entry)).tokens_eq
  rw [← htokens, ← htokens'] at hlength
  simp only [perform] at hlength ⊢
  generalize entry.parse limits c = r at h hlength ⊢
  generalize entry.parse limits d = r' at h hlength ⊢
  cases h with
  | @ok trees trees' c' d' htrees hcd =>
      have heq : trees = trees' := by
        rw [← List.forall₂_eq_eq_eq]
        exact htrees.imp fun _ _ h => Alike.eq h
      exact ⟨by rw [heq], hcd.index_eq_of_length hlength, hcd.depth⟩
  | error he hcd => exact ⟨by rw [he.eq], hcd.index_eq_of_length hlength, hcd.depth⟩

theorem ends_of_perform {Q : Cursor → Prop} (h : Q (c.perform limits (.parse entry)).2) :
    (entry.parse limits).Ends c (fun _ c' => Q c') fun _ c' => Q c' := by
  simp only [perform] at h
  unfold Parser.Ends
  cases hrun : entry.parse limits c with
  | ok trees c' => rwa [hrun] at h
  | error e c' => rwa [hrun] at h

theorem length_of_take_eq {tokens others : List Token} {k : Nat}
    (h : others.take k = tokens.take k) :
    tokens.length + (others.drop k).length = others.length + (tokens.drop k).length := by
  have hlength := congrArg List.length (List.take_append_drop k tokens)
  have hlength' := congrArg List.length (List.take_append_drop k others)
  rw [List.length_append] at hlength hlength'
  rw [h] at hlength'
  omega

/-- What a parser gives depends on the tokens that it takes and on the one where it ends, not on those
behind, though it looks at some of them.  Run from the same index and depth over any other tokens
behind that one, it ends in the same way: with the same trees or the same error, at the same index
and depth. -/
theorem one_token_lookahead (limits : Limits) (entry : Entry) {c d c' : Cursor} {answer : Answer}
    (hc : c.Closed) (hd : d.Closed) (hindex : d.index = c.index) (hdepth : d.depth = c.depth)
    (hrun : c.perform limits (.parse entry) = (answer, c'))
    (hsame : d.tokens.take (c'.index + 1) = c.tokens.take (c'.index + 1)) :
    ∃ d', d.perform limits (.parse entry) = (answer, d') ∧ d'.index = c'.index ∧
      d'.depth = c'.depth := by
  have hdriven := driven_perform limits hc (.parse entry)
  rw [hrun] at hdriven
  have hk : c.index ≤ c'.index + 1 := Nat.le_succ_of_le hdriven.index_le
  have hlength := length_of_take_eq hsame
  have hexc := Parser.not_exhausts_entry limits entry hc
  have hexd := Parser.not_exhausts_entry limits entry hd
  suffices h : (c.perform limits (.parse entry)).1 = (d.perform limits (.parse entry)).1 ∧
      (c.perform limits (.parse entry)).2.index = (d.perform limits (.parse entry)).2.index ∧
      (c.perform limits (.parse entry)).2.depth = (d.perform limits (.parse entry)).2.depth by
    rw [hrun] at h
    exact ⟨(d.perform limits (.parse entry)).2, Prod.ext h.1.symm rfl, h.2.1.symm, h.2.2.symm⟩
  by_cases hrest : d.tokens.drop (c'.index + 1) = [] → c.tokens.drop (c'.index + 1) = []
  · -- the run from `c` ends among the common tokens, so the other one does what it does
    have hbeside := beside_common hc hindex hdepth hk hsame hrest
    have hnot : ¬(Overlap.common _ _ hrest).Past 0 (c.perform limits (.parse entry)).2 := by
      rw [hrun]
      intro hpast
      have hle : c'.ahead.length ≤ (c.tokens.drop (c'.index + 1)).length := hpast.length
      have hsum := c'.index_add_length_ahead
      have hlt := c'.index_lt_length
      rw [hdriven.tokens_eq] at hsum hlt
      rw [List.length_drop] at hle
      omega
    have hagree := Parser.agree_entry (S := .common _ _ hrest) (fun _ => rfl) limits entry c d
    exact perform_of_sameEnd hc hd hlength
      (hagree.sameEnd_of_not_past hbeside (ends_of_perform hnot) hexc hexd)
  · -- the tokens of `d` are all common ones, so its run cannot leave them
    obtain ⟨hnil, -⟩ := Classical.not_imp.1 hrest
    have hrest' : c.tokens.drop (c'.index + 1) = [] → d.tokens.drop (c'.index + 1) = [] :=
      fun _ => hnil
    have hbeside := beside_common hd hindex.symm hdepth.symm (hindex ▸ hk) hsame.symm hrest'
    have hagree := Parser.agree_entry (S := .common _ _ hrest') (fun _ => rfl) limits entry d c
    obtain ⟨hanswer, hindex', hdepth'⟩ := perform_of_sameEnd hd hc hlength.symm
      (hagree.sameEnd hnil hbeside hexd hexc)
    exact ⟨hanswer.symm, hindex'.symm, hdepth'.symm⟩

private def namelessStruct (third : Lexeme) : Cursor :=
  .ofTokens [⟨.keyword .struct "struct", ⟨1, 1⟩⟩, ⟨.symbol .semicolon ";", ⟨1, 8⟩⟩, ⟨third, ⟨1, 9⟩⟩]

private def nameMissing : Cursor.Answer :=
  .trees (.error ⟨.unexpected "Expected struct name", some ⟨.symbol .semicolon ";", ⟨1, 8⟩⟩⟩)

theorem one_token_lookahead_of_struct :
    (namelessStruct (.symbol .leftCurly "\x7b")).kindAhead? 2 = some (.symbol .leftCurly) ∧
    (namelessStruct (.name "x")).kindAhead? 2 = some .name ∧
    ∃ d', (namelessStruct (.name "x")).perform {} (.parse .declaration) = (nameMissing, d') ∧
      d'.index = 1 ∧ d'.depth = 0 := by
  have hrun : (namelessStruct (.symbol .leftCurly "\x7b")).perform {} (.parse .declaration) =
      (nameMissing, (namelessStruct (.symbol .leftCurly "\x7b")).advance) := rfl
  have hclosed : ∀ third, (namelessStruct third).Closed := fun _ => closed_ofTokens _
  exact ⟨rfl, rfl, one_token_lookahead {} .declaration (hclosed (.symbol .leftCurly "\x7b"))
    (hclosed (.name "x")) rfl rfl hrun rfl⟩

end Cursor

end Cmm

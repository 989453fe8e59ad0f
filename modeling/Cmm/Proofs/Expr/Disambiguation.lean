import Cmm.Proofs.Expr.Complete
import Cmm.Proofs.Expr.Guided
import Cmm.Proofs.Expr.Soundness

/-!
# Which expression some tokens spell

Reading an expression is exact: what it takes spells the tree that it gives, and whatever spells a
tree, with all the parentheses that are needed, is taken as a whole and gives this tree again.
-/

namespace Cmm

namespace Written

theorem kind_ne_endOfInput_of_mem_loc {l : Loc} : ∀ x ∈ l.lexemes, x.kind ≠ .endOfInput := by
  induction l with
  | name id => simp [Loc.lexemes, Lexeme.kind]
  | field l id p ih =>
      simp only [Loc.lexemes, List.forall_mem_append]
      exact ⟨ih, by simp [Lexeme.kind, Lexeme.ofSymbol]⟩

mutual

theorem kind_ne_endOfInput : ∀ w : Written, ∀ x ∈ w.lexemes, x.kind ≠ .endOfInput
  | .number _ | .string _ | .truth _ => by simp [lexemes, Lexeme.kind, Lexeme.ofKeyword]
  | .loc _ => kind_ne_endOfInput_of_mem_loc
  | .assign lhs rhs => by
    simp only [lexemes, List.forall_mem_append, List.forall_mem_cons]
    exact ⟨kind_ne_endOfInput_of_mem_loc, nofun, kind_ne_endOfInput rhs⟩
  | .call _ args => by
    simp only [lexemes, List.forall_mem_append, List.forall_mem_cons]
    exact ⟨nofun, nofun, argument_kind_ne_endOfInput args, nofun, nofun⟩
  | .unary _ operand => by
    simp only [lexemes, List.forall_mem_cons]
    exact ⟨nofun, kind_ne_endOfInput operand⟩
  | .binary _ left right => by
    simp only [lexemes, List.forall_mem_append, List.forall_mem_cons]
    exact ⟨kind_ne_endOfInput left, nofun, kind_ne_endOfInput right⟩
  | .parens inner => by
    simp only [lexemes, List.forall_mem_append, List.forall_mem_cons]
    exact ⟨nofun, kind_ne_endOfInput inner, nofun, nofun⟩

theorem argument_kind_ne_endOfInput :
    ∀ ws : List Written, ∀ x ∈ argumentLexemes ws, x.kind ≠ .endOfInput
  | [] => by simp [argumentLexemes]
  | w :: rest => by
    simp only [argumentLexemes, List.forall_mem_append]
    exact ⟨kind_ne_endOfInput w, more_kind_ne_endOfInput rest⟩

theorem more_kind_ne_endOfInput :
    ∀ ws : List Written, ∀ x ∈ moreLexemes ws, x.kind ≠ .endOfInput
  | [] => by simp [moreLexemes]
  | w :: rest => by
    simp only [moreLexemes, List.forall_mem_append, List.forall_mem_cons]
    exact ⟨nofun, kind_ne_endOfInput w, more_kind_ne_endOfInput rest⟩

end

end Written

namespace Parser

variable {limits : Limits}

theorem yields_expression (c : Cursor) : Yields c (expression limits) fun e u d =>
    ∃ w : Written, w.Writes e u ∧ w.goesOn d.current.kind = false := by
  refine .measured (p := fun steps => binaryIn limits steps 1)
    (((exprSound limits _).binary c 1 (by omega)).yields ?_)
  rintro e u d - ⟨w, hw, -, hfinal⟩
  exact ⟨w, hw, Written.final_one_iff.1 hfinal⟩

end Parser

/-- With room for all tokens, reading an expression takes tokens that spell the tree it gives, with
parentheses wherever they are needed, and stops in front of a token that does not go on with them.
Conversely, of a list that begins with such a spelling of a tree, which the next token does not go on
with, exactly the spelling is taken, and it gives the tree, up to positions. -/
theorem expression_exact (limits : Limits) (tokens : List Token)
    (hdepth : tokens.length < limits.depth) (hheight : tokens.length < limits.height) :
    (∀ e d, Parser.expression limits (Cursor.ofTokens tokens) = .ok e d → ∃ u w,
      (Cursor.ofTokens tokens).Reads u d ∧ Written.Writes w e u ∧ w.goesOn d.current.kind = false) ∧
    ∀ e u rest w, tokens = u ++ rest → Written.Writes w e u →
      w.goesOn ((rest.head?.map Token.kind).getD .endOfInput) = false → ∃ e' d,
        Parser.expression limits (Cursor.ofTokens tokens) = .ok e' d ∧
          e'.unplaced = e.unplaced ∧ (Cursor.ofTokens tokens).Reads u d := by
  have hclosed := Cursor.closed_ofTokens tokens
  refine ⟨fun e d hrun => ?_, ?_⟩
  · obtain ⟨u, hu, w, hw, hends⟩ := (Parser.yields_expression _ hclosed).of_ok hrun
    exact ⟨u, w, hu, hw, hends⟩
  · rintro e u rest w rfl hw hends
    have hinside : ∀ t ∈ u, t.kind ≠ .endOfInput := fun t ht => by
      rw [← t.kind_plain]
      exact w.kind_ne_endOfInput _ (hw.lexemes ▸ List.mem_map_of_mem ht)
    obtain ⟨d, hd, hk⟩ := Cursor.exists_reads_ofTokens rest hinside
    rw [← hk] at hends
    have hlength : u.length ≤ (u ++ rest).length := by simp
    have hnesting := w.nesting_lt
    have hheights := w.height_tree_le
    rw [← hw.lexemes, List.length_map] at hnesting hheights
    have hgives : Parser.Gives _ (Parser.expression limits) d fun a => a.unplaced = w.tree :=
      Parser.gives_expression hw.proper ⟨u, hd, hw.lexemes⟩ hends
        (by rw [Cursor.depth_ofTokens]; omega) (fun _ => by omega)
    have hguided : Parser.Guided False (Cursor.ofTokens (u ++ rest)) 1 [.exp]
        (Parser.expression limits) [] :=
      Parser.guided_expression nofun
    obtain ⟨e', hrun, he'⟩ := hgives.ok hguided (fun _ _ _ _ h => h.1.ne_exhausted) hclosed
    exact ⟨e', d, hrun, he'.trans hw.tree, hd⟩

theorem expression_minus_in_parens : ∃ e d, Parser.expression {} (Cursor.ofTokens
      [⟨.name "x", .start⟩, ⟨.symbol .minus "-", ⟨1, 2⟩⟩, ⟨.symbol .leftParen "(", ⟨1, 3⟩⟩,
        ⟨.name "y", ⟨1, 4⟩⟩, ⟨.symbol .minus "-", ⟨1, 5⟩⟩, ⟨.number 1, ⟨1, 6⟩⟩,
        ⟨.symbol .rightParen ")", ⟨1, 7⟩⟩, ⟨.symbol .semicolon ";", ⟨1, 8⟩⟩]) = .ok e d ∧
    e.unplaced = .binary .minus (.loc (.name ⟨"x", .start⟩))
      (.binary .minus (.loc (.name ⟨"y", .start⟩)) (.number 1 .start) .start) .start := by
  have h := (expression_exact {} _ (by decide) (by decide)).2
    (.binary .minus (.loc (.name ⟨"x", .start⟩))
      (.binary .minus (.loc (.name ⟨"y", .start⟩)) (.number 1 .start) .start) .start)
    [⟨.name "x", .start⟩, ⟨.symbol .minus "-", ⟨1, 2⟩⟩, ⟨.symbol .leftParen "(", ⟨1, 3⟩⟩,
      ⟨.name "y", ⟨1, 4⟩⟩, ⟨.symbol .minus "-", ⟨1, 5⟩⟩, ⟨.number 1, ⟨1, 6⟩⟩,
      ⟨.symbol .rightParen ")", ⟨1, 7⟩⟩]
    [⟨.symbol .semicolon ";", ⟨1, 8⟩⟩]
    (.binary .minus (.loc (.name ⟨"x", .start⟩)) (.parens (.binary .minus
      (.loc (.name ⟨"y", .start⟩)) (.number 1))))
    rfl ⟨by simp [Written.Proper, Written.level, Written.endsInAssignment, BinaryOp.precedence],
      rfl, rfl⟩ rfl
  obtain ⟨e, d, hrun, he, -⟩ := h
  exact ⟨e, d, hrun, he⟩

end Cmm

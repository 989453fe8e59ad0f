import Cmm.Proofs.Expr.Printed
import Cmm.Proofs.Expr.Soundness
import Cmm.Proofs.Parser.Complete

/-!
# Where expressions come from

The names, numbers and strings of an expression that was read are among the tokens that were taken
for it, and its height was checked if it has parts.
-/

namespace Cmm

theorem Loc.leaves_unplaced (l : Loc) : l.unplaced.leaves = l.leaves := by
  induction l with
  | name id => rfl
  | field l id p ih => simp only [unplaced, leaves, ih, Name.unplaced]

mutual

theorem Expr.leaves_unplaced : ∀ e : Expr, e.unplaced.leaves = e.leaves
  | .number .. | .string .. | .truth .. => rfl
  | .loc l => l.leaves_unplaced
  | .assign lhs rhs _ => by
    simp only [unplaced, leaves, lhs.leaves_unplaced, leaves_unplaced rhs]
  | .call callee args _ => by
    simp only [unplaced, leaves, Name.unplaced, allLeaves_unplaced args]
  | .unary _ operand _ => leaves_unplaced operand
  | .binary _ left right _ => by
    simp only [unplaced, leaves, leaves_unplaced left, leaves_unplaced right]

theorem Expr.allLeaves_unplaced : ∀ es : List Expr, allLeaves (allUnplaced es) = allLeaves es
  | [] => rfl
  | e :: rest => by
    simp only [allUnplaced, allLeaves, leaves_unplaced e, allLeaves_unplaced rest]

end

theorem Loc.leaves_subset (l : Loc) : l.leaves ⊆ l.lexemes := by
  induction l with
  | name id => exact List.Subset.refl _
  | field l id p ih =>
      simp only [leaves, lexemes, List.append_subset, List.cons_subset]
      exact ⟨fun x hx => List.mem_append_left _ (ih hx), by simp, by simp⟩

namespace Written

mutual

theorem leaves_subset : ∀ w : Written, w.tree.leaves ⊆ w.lexemes
  | .number _ | .string _ => List.Subset.refl _
  | .truth _ => List.nil_subset _
  | .loc l => by
    simp only [tree, Expr.leaves, lexemes, l.leaves_unplaced, l.leaves_subset]
  | .assign lhs rhs => by
    simp only [tree, Expr.leaves, lexemes, lhs.leaves_unplaced, List.append_subset]
    exact ⟨fun x hx => List.mem_append_left _ (lhs.leaves_subset hx),
      fun x hx => List.mem_append_right _ (List.mem_cons_of_mem _ (leaves_subset rhs hx))⟩
  | .call _ args => by
    simp only [tree, Expr.leaves, lexemes, List.cons_subset]
    exact ⟨List.mem_cons_self, fun x hx => List.mem_cons_of_mem _ (List.mem_cons_of_mem _
      (List.mem_append_left _ (allLeaves_subset args hx)))⟩
  | .unary _ operand => fun x hx => List.mem_cons_of_mem _ (leaves_subset operand hx)
  | .binary _ left right => by
    simp only [tree, Expr.leaves, lexemes, List.append_subset]
    exact ⟨fun x hx => List.mem_append_left _ (leaves_subset left hx),
      fun x hx => List.mem_append_right _ (List.mem_cons_of_mem _ (leaves_subset right hx))⟩
  | .parens inner => fun x hx =>
    List.mem_cons_of_mem _ (List.mem_append_left _ (leaves_subset inner hx))

theorem allLeaves_subset : ∀ ws : List Written,
    Expr.allLeaves (trees ws) ⊆ argumentLexemes ws
  | [] => List.nil_subset _
  | w :: rest => by
    simp only [trees, Expr.allLeaves, argumentLexemes, List.append_subset]
    exact ⟨fun x hx => List.mem_append_left _ (leaves_subset w hx),
      fun x hx => List.mem_append_right _ (allLeaves_subset_more rest hx)⟩

theorem allLeaves_subset_more : ∀ ws : List Written,
    Expr.allLeaves (trees ws) ⊆ moreLexemes ws
  | [] => List.nil_subset _
  | w :: rest => by
    simp only [trees, Expr.allLeaves, moreLexemes, List.append_subset]
    exact ⟨fun x hx => List.mem_cons_of_mem _ (List.mem_append_left _ (leaves_subset w hx)),
      fun x hx => List.mem_cons_of_mem _
        (List.mem_append_right _ (allLeaves_subset_more rest hx))⟩

end

end Written

/-- An expression that is built within the limits from lexemes that are given. -/
structure Expr.BuiltFrom (limits : Limits) (ls : List Lexeme) (e : Expr) : Prop where
  leaves : e.leaves ⊆ ls
  height : limits.Admits e.height

theorem Expr.BuiltFrom.mono {limits : Limits} {ls ls' : List Lexeme} {e : Expr}
    (h : e.BuiltFrom limits ls) (hls : ls ⊆ ls') : e.BuiltFrom limits ls' :=
  ⟨List.Subset.trans h.leaves hls, h.height⟩

theorem Written.Writes.leaves_subset {w : Written} {e : Expr} {u : List Token}
    (h : w.Writes e u) : e.leaves ⊆ u.map Token.plain := by
  rw [← e.leaves_unplaced, ← h.tree, h.lexemes]
  exact w.leaves_subset

namespace Parser

variable {limits : Limits} {steps : Nat} {c : Cursor}

/-! ## Heights -/

theorem yields_admitted_fields (c : Cursor) {l : Loc} (hl : limits.Admits l.height) :
    Yields c (fields limits steps l) fun l' _ _ => limits.Admits l'.height := by
  induction steps generalizing c l with
  | zero => exact .exhausted trivial
  | succ steps ih =>
      refine .current (.accept (by simp) (fun _ => ?_) fun _ => .pure hl)
      refine .bind (yields_name _ _) fun _ u d _ _ => .checkHeight (fun hheight => ?_) fun _ => trivial
      exact ih d fun _ => by omega

theorem yields_admitted_location (c : Cursor) :
    Yields c (location limits) fun l _ _ => limits.Admits l.height :=
  .bind (yields_name _ _) fun _ _ d _ _ => .measured (yields_admitted_fields d nofun)

theorem yields_admitted_call (c : Cursor) :
    Yields c (callIn limits steps) fun e _ _ => limits.Admits e.toExpr.height := by
  cases steps with
  | zero => exact .exhausted trivial
  | succ steps =>
      refine .bind (yields_name c _) fun callee u d _ _ => ?_
      refine .expect (by simp) (fun _ => ?_) fun _ => trivial
      have hargs : Yields d.advance
          (if decide (d.advance.current.kind = .symbol .rightParen) = true then Pure.pure []
            else argumentsIn limits steps) fun _ _ _ => True := by
        split
        · exact .pure trivial
        · exact ((exprSound limits steps).arguments _).yields fun _ _ _ _ _ => trivial
      refine .at? (.ite_bind (.bind hargs fun es v e _ _ => ?_))
      refine .expect (by simp) (fun _ => ?_) fun _ => trivial
      exact .checkHeight (fun hheight => .pure fun _ => by omega) fun _ => trivial

structure ExprAdmitted (limits : Limits) (steps : Nat) : Prop where
  binary : ∀ (c : Cursor) (minimum : Int),
    Yields c (binaryIn limits steps minimum) fun e _ _ => limits.Admits e.height
  operators : ∀ (c : Cursor) (minimum : Int) (left : Expr), limits.Admits left.height →
    Yields c (operatorsIn limits steps minimum left) fun e _ _ => limits.Admits e.height
  unary : ∀ c : Cursor, Yields c (unaryIn limits steps) fun e _ _ => limits.Admits e.height
  primary : ∀ c : Cursor, Yields c (primaryIn limits steps) fun e _ _ => limits.Admits e.height
  assignment : ∀ (c : Cursor) (lhs : Loc),
    Yields c (assignmentIn limits steps lhs) fun a _ _ => limits.Admits a.toExpr.height

namespace ExprAdmitted

theorem zero : ExprAdmitted limits 0 where
  binary _ _ := .exhausted trivial
  operators _ _ _ _ := .exhausted trivial
  unary _ := .exhausted trivial
  primary _ := .exhausted trivial
  assignment _ _ := .exhausted trivial

variable (h : ExprAdmitted limits steps)

include h

theorem yields_operators (c : Cursor) (minimum : Int) {left : Expr}
    (hleft : limits.Admits left.height) :
    Yields c (operatorsIn limits (steps + 1) minimum left) fun e _ _ => limits.Admits e.height := by
  refine .current ?_
  split
  · exact .pure hleft
  · rename_i op hop
    split
    · exact .pure hleft
    · refine .advance (by simp [BinaryOp.eq_symbol_of_ofKind? hop]) (.bind (h.binary _ _) ?_)
      intro right u d _ _
      exact .checkHeight (fun hheight => h.operators _ _ _ fun _ => by omega) fun _ => trivial

theorem yields_unary (c : Cursor) :
    Yields c (unaryIn limits (steps + 1)) fun e _ _ => limits.Admits e.height := by
  refine .current ?_
  split
  · exact h.primary c
  · rename_i op hop
    refine .advance (by simp [UnaryOp.eq_symbol_of_ofKind? hop]) ?_
    have hnested : Yields c.advance (nested limits (unaryIn limits steps)) fun _ _ _ => True :=
      .nested (fun _ => (h.unary _).yields fun _ _ _ _ _ => trivial)
        fun _ => trivial
    refine .bind hnested fun operand u d _ _ => ?_
    exact .checkHeight (fun hheight => .pure fun _ => by omega) fun _ => trivial

theorem yields_assignment (c : Cursor) (lhs : Loc) :
    Yields c (assignmentIn limits (steps + 1) lhs) fun a _ _ =>
      limits.Admits a.toExpr.height := by
  refine .expect (by simp) (fun _ => .bind (h.binary _ 1) fun rhs u d _ _ => ?_) fun _ => trivial
  exact .checkHeight (fun hheight => .pure fun _ => by omega) fun _ => trivial

theorem yields_primary (c : Cursor) :
    Yields c (primaryIn limits (steps + 1)) fun e _ _ => limits.Admits e.height := by
  have leaf : ∀ e : Expr, c.current.kind ≠ .endOfInput → e.height = 1 →
      Yields c (do advance; return e) fun e _ _ => limits.Admits e.height :=
    fun e hk he => .advance hk (.pure fun hlt => by omega)
  have hkind : c.current.kind = c.current.lexeme.kind := rfl
  refine .current ?_
  split
  · rename_i value hl
    exact leaf _ (by simp [hkind, hl, Lexeme.kind]) rfl
  · rename_i raw hl
    exact leaf _ (by simp [hkind, hl, Lexeme.kind]) rfl
  · rename_i text hl
    exact leaf _ (by simp [hkind, hl, Lexeme.kind]) rfl
  · rename_i text hl
    exact leaf _ (by simp [hkind, hl, Lexeme.kind]) rfl
  · rename_i text hl
    refine .advance (by simp [hkind, hl, Lexeme.kind]) (.bind (h.binary _ 1) ?_)
    exact fun e u d _ he => .expect (by simp) (fun _ => .pure he) fun _ => trivial
  · refine .get ?_
    split
    · exact .bind (yields_admitted_call c) fun e u d _ he => .pure he
    · refine .bind (yields_admitted_location c) fun l u d _ hl => .at? ?_
      split
      · exact .bind (h.assignment d l) fun a v e _ ha => .pure ha
      · exact .pure hl
  · exact .fail trivial

theorem succ : ExprAdmitted limits (steps + 1) where
  binary c minimum := by
    refine .nested (fun _ => .bind (h.unary _) fun left u d _ hleft => ?_) fun _ => trivial
    exact h.operators d minimum left hleft
  operators c minimum _ := h.yields_operators c minimum
  unary c := h.yields_unary c
  primary c := h.yields_primary c
  assignment c lhs := h.yields_assignment c lhs

end ExprAdmitted

theorem exprAdmitted (limits : Limits) (steps : Nat) : ExprAdmitted limits steps := by
  induction steps with
  | zero => exact ExprAdmitted.zero
  | succ steps ih => exact ih.succ

/-! ## Origins -/

theorem yields_builtFrom_expression (c : Cursor) :
    Yields c (expression limits) fun e u _ => e.BuiltFrom limits (u.map Token.plain) := by
  refine .measured (p := fun steps => binaryIn limits steps 1) ?_
  refine (Runs.and ((exprSound limits _).binary c 1 (by omega))
    ((exprAdmitted limits _).binary c 1)).yields ?_
  rintro e u d - ⟨⟨w, hw, -⟩, hheight⟩
  exact ⟨hw.leaves_subset, hheight⟩

theorem yields_builtFrom_location (c : Cursor) :
    Yields c (location limits) fun l u _ =>
      u.map Token.plain = l.lexemes ∧ (Expr.loc l).BuiltFrom limits (u.map Token.plain) := by
  refine (Runs.and (yields_location c) (yields_admitted_location c)).yields ?_
  rintro l u d - ⟨⟨hl, -⟩, hheight⟩
  exact ⟨hl, hl ▸ l.leaves_subset, hheight⟩

theorem yields_builtFrom_assignment (c : Cursor) {lhs : Loc} {u : List Token}
    (hlhs : u.map Token.plain = lhs.lexemes) :
    Yields c (assignment limits lhs) fun a v _ =>
      a.toExpr.BuiltFrom limits ((u ++ v).map Token.plain) := by
  refine .measured (p := fun steps => assignmentIn limits steps lhs) ?_
  refine (Runs.and ((exprSound limits _).assignment c lhs u hlhs)
    ((exprAdmitted limits _).assignment c lhs)).yields ?_
  rintro a v d - ⟨⟨w, hw, -⟩, hheight⟩
  exact ⟨hw.leaves_subset, hheight⟩

theorem yields_builtFrom_call (c : Cursor) :
    Yields c (call limits) fun e u _ => e.toExpr.BuiltFrom limits (u.map Token.plain) := by
  refine .measured (p := callIn limits) ?_
  refine (Runs.and ((exprSound limits _).call c) (yields_admitted_call c)).yields ?_
  rintro e u d - ⟨⟨w, hw, -⟩, hheight⟩
  exact ⟨hw.leaves_subset, hheight⟩

end Parser

end Cmm

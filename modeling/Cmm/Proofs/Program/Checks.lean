import Cmm.Parser.Program
import Cmm.Proofs.Expr.Checks

/-!
# What is checked when a program is read

Every expression in it that is built from others, and nothing else.
-/

namespace Cmm.Parser

variable {steps : Nat} {old : Node → Prop}

theorem checked_condition (keyword : String) (c : Cursor) :
    Checked (fun limits => condition limits keyword) c old
      fun e n => old n ∨ e.toNode.HasComposite n := by
  refine .bind (.skip (expect _ _) c) fun _ c => .bind (checked_expression c) fun e c => ?_
  exact .bind (.skip (expect _ _) c) fun _ c => .pure fun n => .rfl

theorem checked_ended {s : Stmt} {e : Node} (hs : ∀ n, s.toNode.HasComposite n ↔ e.HasComposite n)
    (message : String) (c : Cursor) : Checked (fun _ => do
      semicolon message
      return s) c (fun n => old n ∨ e.HasComposite n) fun s n => old n ∨ s.toNode.HasComposite n :=
  .bind (.skip (semicolon message) c) fun _ _ => .pure fun n => or_congr_right (hs n)

theorem checked_nameStatement (c : Cursor) :
    Checked nameStatement c old fun s n => old n ∨ s.toNode.HasComposite n := by
  refine .bind (.skip current c) fun t c => .bind (.skip get c) fun c' c => .ite ?_ ?_
  · exact .bind (checked_call c) fun e c => checked_ended (fun n => by simp) _ c
  · refine .bind (checked_location c) fun l c => .bind (.skip (at? _) c) fun _ c => .ite ?_ ?_
    · exact .bind (checked_assignment l c) fun a c => checked_ended (fun n => by simp) _ c
    · refine .bind (.skip (accept _) c) fun _ c => .ite (checked_ended (fun n => by simp) _ c) ?_
      refine .bind (.skip (accept _) c) fun _ c => .ite (checked_ended (fun n => by simp) _ c) ?_
      exact .fail _ c

structure StmtChecked (steps : Nat) : Prop where
  block : ∀ (old : Node → Prop) (c : Cursor), Checked (fun limits => blockIn limits steps) c old
    fun b n => old n ∨ b.stmtsNode.HasComposite n
  statements : ∀ (old : Node → Prop) (c : Cursor),
    Checked (fun limits => statementsIn limits steps) c old
      fun ss n => old n ∨ ∃ s ∈ ss, s.toNode.HasComposite n
  statement : ∀ (old : Node → Prop) (c : Cursor),
    Checked (fun limits => statementIn limits steps) c old
      fun s n => old n ∨ s.toNode.HasComposite n

namespace StmtChecked

theorem zero : StmtChecked 0 where
  block _ c := .exhausted c
  statements _ c := .exhausted c
  statement _ c := .exhausted c

variable (h : StmtChecked steps)

include h

theorem checked_block (c : Cursor) : Checked (fun limits => blockIn limits (steps + 1)) c old
    fun b n => old n ∨ b.stmtsNode.HasComposite n := by
  refine .bind (.skip (expect _ _) c) fun _ c => .nested ?_
  refine .bind (.skip variableDecls _) fun decls c => .bind (.skip current c) fun t c => ?_
  refine .bind (h.statements old c) fun stmts c => .bind (.skip (expect _ _) c) fun _ c => ?_
  exact .pure fun n => by simp

theorem checked_statements (c : Cursor) :
    Checked (fun limits => statementsIn limits (steps + 1)) c old
      fun ss n => old n ∨ ∃ s ∈ ss, s.toNode.HasComposite n := by
  refine .bind (.skip (at? _) c) fun _ c => .ite (.pure fun n => by simp) ?_
  refine .bind (h.statement old c) fun first c => ?_
  exact .bind (h.statements _ c) fun more c => .pure fun n => by simp [or_assoc]

theorem checked_conditional (keyword : String) {p : Position} {make : Expr → Block → Position → Stmt}
    (hmake : ∀ e b n, (make e b p).toNode.HasComposite n ↔
      e.toNode.HasComposite n ∨ b.stmtsNode.HasComposite n) (c : Cursor) :
    Checked (fun limits => do
      let e ← condition limits keyword
      return make e (← blockIn limits steps) p) c old
      fun s n => old n ∨ s.toNode.HasComposite n := by
  refine .bind (checked_condition keyword c) fun e c => ?_
  exact .bind (h.block _ c) fun b c => .pure fun n => by simp [hmake, or_assoc]

theorem checked_statement (c : Cursor) :
    Checked (fun limits => statementIn limits (steps + 1)) c old
      fun s n => old n ∨ s.toNode.HasComposite n := by
  refine .bind (.skip current c) fun t c => ?_
  dsimp only
  cases t.kind with
  | keyword word =>
      cases word with
      | cin =>
          refine .bind (.skip advance c) fun _ c => .bind (.skip (expect _ _) c) fun _ c => ?_
          exact .bind (checked_location c) fun l c => checked_ended (fun n => by simp) _ c
      | cout =>
          refine .bind (.skip advance c) fun _ c => .bind (.skip (expect _ _) c) fun _ c => ?_
          exact .bind (checked_expression c) fun e c => checked_ended (fun n => by simp) _ c
      | ifWord =>
          refine .bind (.skip advance c) fun _ c => .bind (checked_condition "if" c) fun e c => ?_
          refine .bind (h.block _ c) fun b c => .bind (.skip (accept _) c) fun _ c => .ite ?_ ?_
          · exact .bind (h.block _ c) fun b' c => .pure fun n => by simp [or_assoc]
          · exact .pure fun n => by simp [or_assoc]
      | whileWord =>
          refine .bind (.skip advance c) fun _ c => ?_
          exact h.checked_conditional "while" (fun e b n => Stmt.hasComposite_whileLoop) c
      | repeatWord =>
          refine .bind (.skip advance c) fun _ c => ?_
          exact h.checked_conditional "repeat" (fun e b n => Stmt.hasComposite_repeatLoop) c
      | returnWord =>
          refine .bind (.skip advance c) fun _ c => .bind (.skip (accept _) c) fun _ c => .ite ?_ ?_
          · exact .pure fun n => by simp
          · exact .bind (checked_expression c) fun e c => checked_ended (fun n => by simp) _ c
      | _ => exact .fail _ c
  | name => exact checked_nameStatement c
  | _ => exact .fail _ c

theorem succ : StmtChecked (steps + 1) where
  block _ := h.checked_block
  statements _ := h.checked_statements
  statement _ := h.checked_statement

end StmtChecked

theorem stmtChecked (steps : Nat) : StmtChecked steps := by
  induction steps with
  | zero => exact StmtChecked.zero
  | succ steps ih => exact ih.succ

theorem checked_body (c : Cursor) :
    Checked body c old fun b n => old n ∨ b.block.stmtsNode.HasComposite n := by
  refine .bind (.skip current c) fun t c => ?_
  exact .bind (.measured fun steps => (stmtChecked steps).block old c) fun b c => .pure fun n => .rfl

theorem checked_primitiveDeclaration (c : Cursor) :
    Checked primitiveDeclaration c old fun d n => old n ∨ d.toNode.HasComposite n := by
  refine .bind (.skip current c) fun t c => .bind (.skip primitive c) fun type c => ?_
  refine .bind (.skip (name _) c) fun id c => .bind (.skip (at? _) c) fun _ c => .ite ?_ ?_
  · refine .bind (.skip formals c) fun fs c => .bind (checked_body c) fun b c => ?_
    exact .pure fun n => by simp
  · exact .bind (.skip (semicolon _) c) fun _ c => .pure fun n => by simp

theorem checked_declaration (c : Cursor) :
    Checked declaration c old fun d n => old n ∨ d.toNode.HasComposite n := by
  refine .bind (.skip (at? _) c) fun _ c => .ite (.bind (.skip get c) fun c' c => .ite ?_ ?_) ?_
  · exact .bind (.skip structDecl c) fun s c => .pure fun n => by simp
  · exact .bind (.skip variableDecl c) fun v c => .pure fun n => by simp
  · refine .bind (.skip atPrimitive c) fun _ c => .ite (checked_primitiveDeclaration c) ?_
    exact .fail _ c

theorem checked_declarationsIn (c : Cursor) :
    Checked (fun limits => declarationsIn limits steps) c old
      fun ds n => old n ∨ ∃ d ∈ ds, d.toNode.HasComposite n := by
  induction steps generalizing old c with
  | zero => exact .exhausted c
  | succ steps ih =>
      refine .bind (.skip (at? _) c) fun _ c => .ite (.pure fun n => by simp) ?_
      refine .bind (checked_declaration c) fun first c => ?_
      exact .bind (ih c) fun more c => .pure fun n => by simp [or_assoc]

/-- Every run over tokens makes its checks and looks at the limits for nothing else; the expressions
it checks are those of the program that are built from others. -/
theorem checked_program (c : Cursor) :
    Checked program c (fun _ => False) fun p n => p.toNode.HasComposite n := by
  refine .bind (.skip current c) fun t c => ?_
  refine .bind (.measured fun _ => checked_declarationsIn c) fun ds c => .pure fun n => ?_
  simp [Program.hasComposite_iff]

end Cmm.Parser

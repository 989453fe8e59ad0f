import Cmm.Parser.Expr
import Cmm.Proofs.Parser.Checks

/-!
# What is checked when an expression is read

Every expression in it that is built from others, and nothing else.
-/

namespace Cmm.Parser

variable {steps : Nat} {old : Node → Prop}

theorem checked_fields (l : Loc) (c : Cursor) : Checked (fun limits => fields limits steps l) c
    (fun n => old n ∨ l.toNode.HasComposite n) fun l n => old n ∨ l.toNode.HasComposite n := by
  induction steps generalizing l c with
  | zero => exact .exhausted c
  | succ steps ih =>
      refine .bind (.skip current c) fun dot c => .bind (.skip (accept _) c) fun _ c => .ite ?_ ?_
      · refine .bind (.skip (name _) c) fun id c => ?_
        refine .bind (.checkHeight (.loc (.field l id dot.position)) _ c rfl) fun _ c => ?_
        refine (ih _ c).of_old fun n => ?_
        simp [Expr.toNode, or_comm, or_left_comm]
      · exact .pure fun n => .rfl

theorem checked_location (c : Cursor) :
    Checked location c old fun l n => old n ∨ l.toNode.HasComposite n :=
  .bind (.skip (name _) c) fun _ c => .measured fun _ => (checked_fields _ c).of_old (by simp)

structure ExprChecked (steps : Nat) : Prop where
  binary : ∀ (old : Node → Prop) (minimum : Int) (c : Cursor),
    Checked (fun limits => binaryIn limits steps minimum) c old
      fun e n => old n ∨ e.toNode.HasComposite n
  operators : ∀ (old : Node → Prop) (minimum : Int) (left : Expr) (c : Cursor),
    Checked (fun limits => operatorsIn limits steps minimum left) c
      (fun n => old n ∨ left.toNode.HasComposite n) fun e n => old n ∨ e.toNode.HasComposite n
  unary : ∀ (old : Node → Prop) (c : Cursor), Checked (fun limits => unaryIn limits steps) c old
    fun e n => old n ∨ e.toNode.HasComposite n
  primary : ∀ (old : Node → Prop) (c : Cursor), Checked (fun limits => primaryIn limits steps) c old
    fun e n => old n ∨ e.toNode.HasComposite n
  assignment : ∀ (old : Node → Prop) (lhs : Loc) (c : Cursor),
    Checked (fun limits => assignmentIn limits steps lhs) c
      (fun n => old n ∨ lhs.toNode.HasComposite n) fun a n => old n ∨ a.toNode.HasComposite n
  call : ∀ (old : Node → Prop) (c : Cursor), Checked (fun limits => callIn limits steps) c old
    fun e n => old n ∨ e.toNode.HasComposite n
  arguments : ∀ (old : Node → Prop) (c : Cursor),
    Checked (fun limits => argumentsIn limits steps) c old
      fun es n => old n ∨ ∃ e ∈ es, e.toNode.HasComposite n

namespace ExprChecked

theorem zero : ExprChecked 0 where
  binary _ _ c := .exhausted c
  operators _ _ _ c := .exhausted c
  unary _ c := .exhausted c
  primary _ c := .exhausted c
  assignment _ _ c := .exhausted c
  call _ c := .exhausted c
  arguments _ c := .exhausted c

variable (h : ExprChecked steps)

include h

theorem checked_operators (minimum : Int) (left : Expr) (c : Cursor) :
    Checked (fun limits => operatorsIn limits (steps + 1) minimum left) c
      (fun n => old n ∨ left.toNode.HasComposite n) fun e n => old n ∨ e.toNode.HasComposite n := by
  refine .bind (.skip current c) fun t c => ?_
  cases BinaryOp.ofKind? t.kind with
  | none => exact .pure fun n => .rfl
  | some op =>
      refine .ite (.pure fun n => .rfl) (.bind (.skip advance c) fun _ c => ?_)
      refine .bind (h.binary _ _ c) fun right c => ?_
      refine .bind (.checkHeight (.binary op left right t.position) _ c rfl) fun _ c => ?_
      refine (h.operators old minimum _ c).of_old fun n => ?_
      simp [or_assoc, or_comm, or_left_comm]

theorem checked_unary (c : Cursor) : Checked (fun limits => unaryIn limits (steps + 1)) c old
    fun e n => old n ∨ e.toNode.HasComposite n := by
  refine .bind (.skip current c) fun t c => ?_
  cases UnaryOp.ofKind? t.kind with
  | none => exact h.primary old c
  | some op =>
      refine .bind (.skip advance c) fun _ c => .bind (.nested (h.unary _ _)) fun operand c => ?_
      refine .bind (.checkHeight (.unary op operand t.position) _ c rfl) fun _ c => .pure fun n => ?_
      simp [or_comm, or_left_comm]

theorem checked_primary (c : Cursor) : Checked (fun limits => primaryIn limits (steps + 1)) c old
    fun e n => old n ∨ e.toNode.HasComposite n := by
  refine .bind (.skip current c) fun t c => ?_
  cases t.lexeme with
  | name text =>
      refine .bind (.skip get c) fun c' c => .ite ?_ ?_
      · exact .bind (h.call old c) fun e c => .pure fun n => .rfl
      · refine .bind (checked_location c) fun l c => .bind (.skip (at? _) c) fun _ c => .ite ?_ ?_
        · exact .bind (h.assignment old l c) fun a c => .pure fun n => .rfl
        · exact .pure fun n => .rfl
  | symbol sign text =>
      cases sign with
      | leftParen =>
          refine .bind (.skip advance c) fun _ c => .bind (h.binary old 1 c) fun e c => ?_
          exact .bind (.skip (expect _ _) c) fun _ c => .pure fun n => .rfl
      | _ => exact .fail _ c
  | keyword word text =>
      cases word with
      | trueWord => exact .bind (.skip advance c) fun _ c => .pure fun n => by simp
      | falseWord => exact .bind (.skip advance c) fun _ c => .pure fun n => by simp
      | _ => exact .fail _ c
  | number value => exact .bind (.skip advance c) fun _ c => .pure fun n => by simp
  | string raw => exact .bind (.skip advance c) fun _ c => .pure fun n => by simp
  | endOfInput => exact .fail _ c

theorem checked_assignment (lhs : Loc) (c : Cursor) :
    Checked (fun limits => assignmentIn limits (steps + 1) lhs) c
      (fun n => old n ∨ lhs.toNode.HasComposite n) fun a n => old n ∨ a.toNode.HasComposite n := by
  refine .bind (.skip (expect _ _) c) fun sign c => .bind (h.binary _ 1 c) fun rhs c => ?_
  refine .bind (.checkHeight (.assign lhs rhs sign.position) _ c rfl) fun _ c => .pure fun n => ?_
  simp [Assignment.toNode, Assignment.toExpr, or_comm, or_left_comm]

theorem checked_call (c : Cursor) : Checked (fun limits => callIn limits (steps + 1)) c old
    fun e n => old n ∨ e.toNode.HasComposite n := by
  refine .bind (.skip (name _) c) fun callee c => .bind (.skip (expect _ _) c) fun paren c => ?_
  have hrest : ∀ (args : List Expr) (c : Cursor), Checked (fun limits => do
      let _ ← expect (.symbol .rightParen) "Expected ')' after call"
      let whole : Call := ⟨callee, args, paren.position⟩
      checkHeight limits whole.toExpr.height paren
      return whole) c (fun n => old n ∨ ∃ e ∈ args, e.toNode.HasComposite n)
      fun e n => old n ∨ e.toNode.HasComposite n := by
    intro args c
    refine .bind (.skip (expect _ _) c) fun _ c => ?_
    refine .bind (.checkHeight (.call callee args paren.position) _ c rfl) fun _ c => .pure fun n => ?_
    simp [Call.toNode, Call.toExpr, or_comm, or_left_comm]
  refine .bind (.skip (at? _) c) fun _ c => .ite ?_ ?_
  · exact (hrest [] c).of_old (by simp)
  · exact .bind (h.arguments old c) hrest

theorem checked_arguments (c : Cursor) :
    Checked (fun limits => argumentsIn limits (steps + 1)) c old
      fun es n => old n ∨ ∃ e ∈ es, e.toNode.HasComposite n := by
  refine .bind (h.binary old 1 c) fun first c => .bind (.skip (accept _) c) fun _ c => .ite ?_ ?_
  · refine .bind (h.arguments _ c) fun more c => .pure fun n => ?_
    simp [or_assoc]
  · exact .pure fun n => by simp

theorem succ : ExprChecked (steps + 1) where
  binary old minimum _ := .nested (.bind (h.unary old _) fun left c => h.operators old minimum left c)
  operators _ := h.checked_operators
  unary _ := h.checked_unary
  primary _ := h.checked_primary
  assignment _ := h.checked_assignment
  call _ := h.checked_call
  arguments _ := h.checked_arguments

end ExprChecked

theorem exprChecked (steps : Nat) : ExprChecked steps := by
  induction steps with
  | zero => exact ExprChecked.zero
  | succ steps ih => exact ih.succ

theorem checked_expression (c : Cursor) :
    Checked expression c old fun e n => old n ∨ e.toNode.HasComposite n :=
  .measured fun steps => (exprChecked steps).binary old 1 c

theorem checked_assignment (lhs : Loc) (c : Cursor) :
    Checked (fun limits => assignment limits lhs) c (fun n => old n ∨ lhs.toNode.HasComposite n)
      fun a n => old n ∨ a.toNode.HasComposite n :=
  .measured fun steps => (exprChecked steps).assignment old lhs c

theorem checked_call (c : Cursor) :
    Checked call c old fun e n => old n ∨ e.toNode.HasComposite n :=
  .measured fun steps => (exprChecked steps).call old c

end Cmm.Parser

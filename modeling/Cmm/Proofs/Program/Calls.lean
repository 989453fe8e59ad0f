import Cmm.Proofs.Expr.Truncated
import Cmm.Proofs.Parser.Calls
import Cmm.Proofs.Program.Driven
import Cmm.Proofs.Program.Placement

/-!
# How many calls are open at once

A level of nesting costs four calls at most, and calls in the arguments of each other cost as many.
-/

namespace Cmm

namespace Counted

variable {depth left steps : Nat} {limits : Limits}

/-! ## Names, types and variables -/

theorem keeps_name (message : String) : Keeps (Parser.name message) :=
  .of_runs fun c => Parser.yields_placed_name c message

theorem keeps_variableDecls : Keeps Parser.variableDecls :=
  .of_runs Parser.yields_placed_variableDecls

theorem keeps_variableDecl : Keeps Parser.variableDecl :=
  .of_runs Parser.yields_placed_variableDecl

theorem keeps_structDecl : Keeps Parser.structDecl :=
  .of_runs Parser.yields_placed_structDecl

theorem keeps_formals : Keeps Parser.formals :=
  .of_runs Parser.yields_placed_formals

theorem keeps_primitive : Keeps Parser.primitive :=
  .of_runs Parser.yields_placed_primitive

theorem keeps_location (limits : Limits) : Keeps (Parser.location limits) :=
  .of_runs Parser.yields_placed_location

/-! ## Expressions -/

/-- What is read with a number of steps has so many calls open at once, where as many levels of
nesting are left. -/
structure ExprCounts (limits : Limits) (steps depth left : Nat) : Prop where
  binary : ∀ minimum : Int, Counts depth (binaryIn limits steps minimum)
    (Parser.binaryIn limits steps minimum) (4 * left + 1)
  operators : ∀ (minimum : Int) (e : Expr), Counts depth (operatorsIn limits steps minimum e)
    (Parser.operatorsIn limits steps minimum e) (4 * left + 1)
  unary : Counts depth (unaryIn limits steps) (Parser.unaryIn limits steps) (4 * left + 4)
  primary : Counts depth (primaryIn limits steps) (Parser.primaryIn limits steps) (4 * left + 3)
  assignment : ∀ lhs : Loc, Counts depth (assignmentIn limits steps lhs)
    (Parser.assignmentIn limits steps lhs) (4 * left + 2)
  call : Counts depth (callIn limits steps) (Parser.callIn limits steps) (4 * left + 2)
  arguments : Counts depth (argumentsIn limits steps) (Parser.argumentsIn limits steps)
    (4 * left + 1)

namespace ExprCounts

theorem zero : ExprCounts limits 0 depth left where
  binary _ := .lift .exhausted
  operators _ _ := .lift .exhausted
  unary := .lift .exhausted
  primary := .lift .exhausted
  assignment _ := .lift .exhausted
  call := .lift .exhausted
  arguments := .lift .exhausted

variable (h : ∀ depth left : Nat, limits.depth ≤ depth + left → ExprCounts limits steps depth left)
  (hleft : limits.depth ≤ depth + left)

include h hleft

theorem counts_binary (minimum : Int) : Counts depth (binaryIn limits (steps + 1) minimum)
    (Parser.binaryIn limits (steps + 1) minimum) (4 * left + 1) := by
  refine .call (.nested fun hlt => ?_)
  obtain ⟨left, rfl⟩ : ∃ n, left = n + 1 := ⟨left - 1, by omega⟩
  have hin := h (depth + 1) left (by omega)
  exact .bind hin.unary fun e => (hin.operators minimum e).weaken (by omega)

theorem counts_operators (minimum : Int) (e : Expr) :
    Counts depth (operatorsIn limits (steps + 1) minimum e)
      (Parser.operatorsIn limits (steps + 1) minimum e) (4 * left + 1) := by
  refine .bind (.lift .current) fun t => ?_
  cases BinaryOp.ofKind? t.kind with
  | none => exact .pure _
  | some op =>
  refine .ite (.pure _) (.bind (.lift .advance) fun _ => ?_)
  refine .bind ((h depth left hleft).binary _) fun right => ?_
  exact .bind (.lift (.checkHeight _ _ _)) fun _ => (h depth left hleft).operators _ _

theorem counts_unary : Counts depth (unaryIn limits (steps + 1))
    (Parser.unaryIn limits (steps + 1)) (4 * left + 4) := by
  refine .call (.bind (.lift .current) fun t => ?_)
  cases UnaryOp.ofKind? t.kind with
  | none => exact (h depth left hleft).primary
  | some op =>
    refine .bind (.lift .advance) fun _ => .bind (.nested fun hlt => ?_) fun operand => ?_
    · exact (h (depth + 1) (left - 1) (by omega)).unary.weaken (by omega)
    · exact .bind (.lift (.checkHeight _ _ _)) fun _ => .pure _

theorem counts_assignment (lhs : Loc) : Counts depth (assignmentIn limits (steps + 1) lhs)
    (Parser.assignmentIn limits (steps + 1) lhs) (4 * left + 2) := by
  refine .call (.bind (.lift (.expect _ _)) fun sign => ?_)
  refine .bind ((h depth left hleft).binary 1) fun rhs => ?_
  exact .bind (.lift (.checkHeight _ _ _)) fun _ => .pure _

theorem counts_arguments : Counts depth (argumentsIn limits (steps + 1))
    (Parser.argumentsIn limits (steps + 1)) (4 * left + 1) := by
  refine .bind ((h depth left hleft).binary 1) fun first => ?_
  refine .bind (.lift (.accept _)) fun more => .ite ?_ (.pure _)
  exact .bind (h depth left hleft).arguments fun rest => .pure _

theorem counts_call : Counts depth (callIn limits (steps + 1))
    (Parser.callIn limits (steps + 1)) (4 * left + 2) := by
  refine .call (.bind (.lift (keeps_name _)) fun callee => ?_)
  refine .bind (.lift (.expect _ _)) fun paren => ?_
  refine .bind (.lift (.at? _)) fun none => ?_
  have hclose : ∀ es : List Expr, Counts depth (do
      let _ ← liftM (Parser.expect (.symbol .rightParen) "Expected ')' after call")
      let whole : Call := ⟨callee, es, paren.position⟩
      liftM (Parser.checkHeight limits whole.toExpr.height paren)
      return whole)
      (do
      let _ ← Parser.expect (.symbol .rightParen) "Expected ')' after call"
      let whole : Call := ⟨callee, es, paren.position⟩
      Parser.checkHeight limits whole.toExpr.height paren
      return whole) (4 * left + 1) := fun es =>
    .bind (.lift (.expect _ _)) fun _ => .bind (.lift (.checkHeight _ _ _)) fun _ => .pure _
  exact .ite (.bind (.pure _) hclose) (.bind (h depth left hleft).arguments hclose)

theorem counts_primary : Counts depth (primaryIn limits (steps + 1))
    (Parser.primaryIn limits (steps + 1)) (4 * left + 3) := by
  have hbelow := h depth left hleft
  refine .call (.bind (.lift .current) fun t => ?_)
  cases t.lexeme with
  | number | string => exact .bind (.lift .advance) fun _ => .pure _
  | keyword word =>
    cases word with
    | trueWord | falseWord => exact .bind (.lift .advance) fun _ => .pure _
    | _ => exact .lift (.fail _)
  | symbol sign =>
    cases sign with
    | leftParen =>
      refine .bind (.lift .advance) fun _ => .bind ((hbelow.binary 1).weaken (by omega)) fun e => ?_
      exact .bind (.lift (.expect _ _)) fun _ => .pure _
    | _ => exact .lift (.fail _)
  | name =>
    refine .bind (.lift .get) fun c => .ite (.bind hbelow.call fun _ => .pure _) ?_
    refine .bind (.lift (keeps_location _)) fun loc => .bind (.lift (.at? _)) fun _ => ?_
    exact .ite (.bind (hbelow.assignment loc) fun _ => .pure _) (.pure _)
  | endOfInput => exact .lift (.fail _)

theorem succ : ExprCounts limits (steps + 1) depth left where
  binary := counts_binary h hleft
  operators := counts_operators h hleft
  unary := counts_unary h hleft
  primary := counts_primary h hleft
  assignment := counts_assignment h hleft
  call := counts_call h hleft
  arguments := counts_arguments h hleft

end ExprCounts

theorem exprCounts (steps : Nat) {depth left : Nat} (hleft : limits.depth ≤ depth + left) :
    ExprCounts limits steps depth left := by
  induction steps generalizing depth left with
  | zero => exact .zero
  | succ steps ih => exact .succ (fun _ _ hleft => ih hleft) hleft

theorem counts_expression (hleft : limits.depth ≤ depth + left) :
    Counts depth (expression limits) (Parser.expression limits) (4 * left + 2) :=
  .call (.measured fun steps => (exprCounts steps hleft).binary 1)

/-! ## Statements -/

theorem counts_condition (hleft : limits.depth ≤ depth + left) (keyword : String) :
    Counts depth (condition limits keyword) (Parser.condition limits keyword) (4 * left + 3) := by
  refine .call (.bind (.lift (.expect _ _)) fun _ => .bind (counts_expression hleft) fun e => ?_)
  exact .bind (.lift (.expect _ _)) fun _ => .pure _

theorem counts_nameStatement (hleft : limits.depth ≤ depth + left) :
    Counts depth (nameStatement limits) (Parser.nameStatement limits) (4 * left + 2) := by
  have hend : ∀ (s : Stmt) (message : String), Counts depth
      (do liftM (Parser.semicolon message); return s)
      (do Parser.semicolon message; return s) (4 * left + 2) :=
    fun _ _ => .bind (.lift (.semicolon _)) fun _ => .pure _
  refine .bind (.lift .current) fun t => .bind (.lift .get) fun c => .ite ?_ ?_
  · exact .bind (.measured fun steps => (exprCounts steps hleft).call) fun _ => hend _ _
  refine .bind (.lift (keeps_location _)) fun loc => .bind (.lift (.at? _)) fun _ => .ite ?_ ?_
  · exact .bind (.measured fun steps => (exprCounts steps hleft).assignment loc) fun _ => hend _ _
  refine .bind (.lift (.accept _)) fun _ => .ite (hend _ _) ?_
  exact .bind (.lift (.accept _)) fun _ => .ite (hend _ _) (.lift (.fail _))

structure StmtCounts (limits : Limits) (steps depth left : Nat) : Prop where
  block : Counts depth (blockIn limits steps) (Parser.blockIn limits steps) (4 * left + 1)
  statements : Counts depth (statementsIn limits steps) (Parser.statementsIn limits steps)
    (4 * left + 4)
  statement : Counts depth (statementIn limits steps) (Parser.statementIn limits steps)
    (4 * left + 4)

namespace StmtCounts

theorem zero : StmtCounts limits 0 depth left where
  block := .lift .exhausted
  statements := .lift .exhausted
  statement := .lift .exhausted

variable (h : ∀ depth left : Nat, limits.depth ≤ depth + left →
  StmtCounts limits steps depth left) (hleft : limits.depth ≤ depth + left)

include h hleft

theorem counts_block : Counts depth (blockIn limits (steps + 1))
    (Parser.blockIn limits (steps + 1)) (4 * left + 1) := by
  refine .call (.bind (.lift (.expect _ _)) fun _ => .nested fun hlt => ?_)
  have hin := (h (depth + 1) (left - 1) (by omega)).statements
  refine .bind (.lift keeps_variableDecls) fun decls => .bind (.lift .current) fun t => ?_
  refine .bind (hin.weaken (by omega)) fun stmts => ?_
  exact .bind (.lift (.expect _ _)) fun _ => .pure _

theorem counts_statements : Counts depth (statementsIn limits (steps + 1))
    (Parser.statementsIn limits (steps + 1)) (4 * left + 4) := by
  refine .bind (.lift (.at? _)) fun _ => .ite (.pure _) ?_
  refine .bind (h depth left hleft).statement fun first => ?_
  exact .bind (h depth left hleft).statements fun rest => .pure _

theorem counts_statement : Counts depth (statementIn limits (steps + 1))
    (Parser.statementIn limits (steps + 1)) (4 * left + 4) := by
  have hblock : Counts depth (blockIn limits steps) (Parser.blockIn limits steps) (4 * left + 3) :=
    (h depth left hleft).block.weaken (by omega)
  have hexpression : Counts depth (expression limits) (Parser.expression limits) (4 * left + 3) :=
    (counts_expression hleft).weaken (by omega)
  refine .call (.bind (.lift .current) fun t => ?_)
  cases t.kind with
  | keyword word =>
    cases word with
    | int | bool | void | struct => exact .lift (.fail _)
    | cin =>
      refine .bind (.lift .advance) fun _ => .bind (.lift (.expect _ _)) fun _ => ?_
      refine .bind (.lift (keeps_location _)) fun loc => ?_
      exact .bind (.lift (.semicolon _)) fun _ => .pure _
    | cout =>
      refine .bind (.lift .advance) fun _ => .bind (.lift (.expect _ _)) fun _ => ?_
      exact .bind hexpression fun e => .bind (.lift (.semicolon _)) fun _ => .pure _
    | ifWord =>
      refine .bind (.lift .advance) fun _ => .bind (counts_condition hleft _) fun c => ?_
      refine .bind hblock fun thenBlock => .bind (.lift (.accept _)) fun _ => .ite ?_ (.pure _)
      exact .bind hblock fun elseBlock => .pure _
    | whileWord | repeatWord =>
      refine .bind (.lift .advance) fun _ => .bind (counts_condition hleft _) fun c => ?_
      exact .bind hblock fun b => .pure _
    | returnWord =>
      refine .bind (.lift .advance) fun _ => .bind (.lift (.accept _)) fun _ => ?_
      refine .ite (.pure _) (.bind hexpression fun e => ?_)
      exact .bind (.lift (.semicolon _)) fun _ => .pure _
    | _ => exact .lift (.fail _)
  | name => exact (counts_nameStatement hleft).weaken (by omega)
  | _ => exact .lift (.fail _)

theorem succ : StmtCounts limits (steps + 1) depth left where
  block := counts_block h hleft
  statements := counts_statements h hleft
  statement := counts_statement h hleft

end StmtCounts

theorem stmtCounts (steps : Nat) {depth left : Nat} (hleft : limits.depth ≤ depth + left) :
    StmtCounts limits steps depth left := by
  induction steps generalizing depth left with
  | zero => exact .zero
  | succ steps ih => exact .succ (fun _ _ hleft => ih hleft) hleft

/-! ## Declarations -/

theorem counts_body (hleft : limits.depth ≤ depth + left) :
    Counts depth (body limits) (Parser.body limits) (4 * left + 2) := by
  refine .call (.bind (.lift .current) fun t => ?_)
  exact .bind (.measured fun steps => (stmtCounts steps hleft).block) fun b => .pure _

theorem counts_primitiveDeclaration (hleft : limits.depth ≤ depth + left) :
    Counts depth (primitiveDeclaration limits) (Parser.primitiveDeclaration limits)
      (4 * left + 2) := by
  refine .bind (.lift .current) fun t => .bind (.lift keeps_primitive) fun type => ?_
  refine .bind (.lift (keeps_name _)) fun id => .bind (.lift (.at? _)) fun _ => .ite ?_ ?_
  · refine .bind (.lift keeps_formals) fun params => ?_
    exact .bind (counts_body hleft) fun b => .pure _
  · exact .bind (.lift (.semicolon _)) fun _ => .pure _

theorem counts_declaration (hleft : limits.depth ≤ depth + left) :
    Counts depth (declaration limits) (Parser.declaration limits) (4 * left + 3) := by
  refine .call (.bind (.lift (.at? _)) fun _ => .ite (.bind (.lift .get) fun c => .ite ?_ ?_) ?_)
  · exact .bind (.lift keeps_structDecl) fun s => .pure _
  · exact .bind (.lift keeps_variableDecl) fun v => .pure _
  · refine .bind (.lift .atPrimitive) fun _ => ?_
    exact .ite (counts_primitiveDeclaration hleft) (.lift (.fail _))

theorem counts_declarationsIn (hleft : limits.depth ≤ depth + left) (steps : Nat) :
    Counts depth (declarationsIn limits steps) (Parser.declarationsIn limits steps)
      (4 * left + 3) := by
  induction steps with
  | zero => exact .lift .exhausted
  | succ steps ih =>
      refine .bind (.lift (.at? _)) fun _ => .ite (.pure _) ?_
      exact .bind (counts_declaration hleft) fun first => .bind ih fun rest => .pure _

theorem counts_program (hleft : limits.depth ≤ depth + left) :
    Counts depth (program limits) (Parser.program limits) (4 * left + 4) := by
  refine .call (.bind (.lift .current) fun t => ?_)
  exact .bind (.measured fun steps => counts_declarationsIn hleft steps) fun ds => .pure _

/-! ## Calls in the arguments of each other -/

section Least

variable {α β : Type} {n : Nat} {q : Counted α} {f : α → Counted β} {c d : Cursor}

theorem le_bind (h : n ≤ (q c).2) : n ≤ ((q >>= f) c).2 := by
  rcases hrun : q c with ⟨_ | _, calls⟩
  · rw [bind_of_ok hrun]
    rw [hrun] at h
    exact Nat.le_trans h (Nat.le_max_left _ _)
  · rw [bind_of_error hrun]
    rwa [hrun] at h

theorem le_lift_bind {p : Parser α} {a : α} (hp : p c = .ok a d) (h : n ≤ (f a d).2) :
    n ≤ ((liftM p >>= f : Counted β) c).2 := by
  rw [bind_of_ok (q := liftM p) (congrArg (·, 0) hp), Nat.zero_max]
  exact h

theorem le_ite_pos {b : Prop} [Decidable b] {q' : Counted α} (hb : b) (h : n ≤ (q c).2) :
    n ≤ ((if b then q else q' : Counted α) c).2 := by
  rwa [if_pos hb]

theorem le_ite_neg {b : Prop} [Decidable b] {q' : Counted α} (hb : ¬b) (h : n ≤ (q c).2) :
    n ≤ ((if b then q' else q : Counted α) c).2 := by
  rwa [if_neg hb]

theorem le_nested (hdepth : (c.depth : Int) < limits.depth) (h : n ≤ (q c.deeper).2) :
    n ≤ (nested limits q c).2 := by
  rw [nested_of_not_lt (by omega)]
  rcases hrun : q c.deeper with ⟨_ | _, calls⟩ <;> rwa [hrun] at h

end Least

def nestedCalls : Nat → List Kind
  | 0 => []
  | n + 1 => .name :: .symbol .leftParen :: nestedCalls n

section Call

variable {n : Nat} {minimum : Int} {c : Cursor} {text : String} {paren : Token}
  {after : List Token}

theorem le_binaryIn_of_call (hname : c.current.lexeme = .name text)
    (hafter : c.after = paren :: after) (hparen : paren.kind = .symbol .leftParen)
    (hdepth : (c.depth : Int) < limits.depth) (h : n ≤ (callIn limits steps c.deeper).2) :
    n + 3 ≤ (binaryIn limits (steps + 3) minimum c).2 := by
  obtain ⟨before, ⟨lexeme, position⟩, rest, depth⟩ := c
  subst hname hafter
  refine Nat.succ_le_succ (le_nested hdepth (le_bind ?_))
  refine Nat.succ_le_succ (le_lift_bind rfl ?_)
  refine Nat.succ_le_succ (le_lift_bind rfl (le_lift_bind rfl ?_))
  exact le_ite_pos (congrArg some hparen) (le_bind h)

theorem le_callIn {next : Token} (hname : c.current.lexeme = .name text)
    (hafter : c.after = paren :: next :: after) (hparen : paren.kind = .symbol .leftParen)
    (hnext : next.kind ≠ .symbol .rightParen)
    (h : n ≤ (argumentsIn limits steps c.advance.advance).2) :
    n + 1 ≤ (callIn limits (steps + 1) c).2 := by
  obtain ⟨before, ⟨lexeme, position⟩, rest, depth⟩ := c
  subst hname hafter
  refine Nat.succ_le_succ (le_lift_bind rfl ?_)
  refine le_lift_bind (Parser.expect_of_eq hparen _) (le_lift_bind rfl ?_)
  exact le_ite_neg (of_decide_eq_true · |> hnext) (le_bind h)

end Call

/-- Where so many calls in the arguments of each other begin, and the limit admits them, four times
as many calls are open at once. -/
theorem le_binaryIn {n : Nat} {minimum : Int} {c : Cursor} {rest : List Kind}
    (hkinds : c.kinds = nestedCalls n ++ rest) (hsteps : 5 * n ≤ steps)
    (hdepth : (c.depth + n : Int) ≤ limits.depth) :
    4 * n ≤ (binaryIn limits steps minimum c).2 := by
  induction n generalizing steps minimum c with
  | zero => exact Nat.zero_le _
  | succ n ih =>
      obtain ⟨steps, rfl⟩ : ∃ s, steps = s + 5 := ⟨steps - 5, by omega⟩
      obtain ⟨hname, hafter⟩ := List.cons.inj hkinds
      obtain ⟨paren, after, hc, hparen, htail⟩ := List.map_eq_cons_iff.1 hafter
      obtain ⟨text, hname⟩ := Parser.exists_lexeme_eq_name hname
      refine le_binaryIn_of_call hname hc hparen (by omega) ?_
      cases n with
      | zero => exact Nat.succ_le_succ (Nat.zero_le _)
      | succ n =>
          obtain ⟨next, after, rfl, hnext, -⟩ := List.map_eq_cons_iff.1 htail
          have hargs : c.deeper.advance.advance =
              ⟨paren :: c.current :: c.before, next, after, c.depth + 1⟩ := by
            simp [Cursor.advance, Cursor.deeper, hc]
          refine le_callIn hname hc hparen (by simp [hnext]) (le_bind ?_)
          rw [hargs]
          exact ih htail (by omega) (by dsimp only; omega)

theorem length_nestedCalls (n : Nat) : (nestedCalls n).length = 2 * n := by
  induction n with
  | zero => rfl
  | succ n ih => simp [nestedCalls, ih, Nat.mul_succ]

theorem le_expression {n : Nat} {c : Cursor} {rest : List Kind}
    (hkinds : c.kinds = nestedCalls n ++ rest) (hdepth : (c.depth + n : Int) ≤ limits.depth) :
    4 * n + 1 ≤ (expression limits c).2 := by
  have hlength := congrArg List.length hkinds
  rw [Cursor.kinds, List.length_map, Cursor.length_ahead, List.length_append,
    length_nestedCalls] at hlength
  exact Nat.succ_le_succ (le_binaryIn hkinds (by omega) hdepth)

end Counted

/-! ## Parts of a program -/

namespace Entry

open Counted

variable {limits : Limits} {c : Cursor}

theorem counts {depth left : Nat} (hleft : limits.depth ≤ depth + left) (entry : Entry) :
    Counts depth (entry.counted limits) (entry.parse limits) (4 * left + 4) := by
  have hexpr := fun steps => exprCounts steps hleft
  have hstmt := fun steps => stmtCounts steps hleft
  cases entry with
  | program => exact .bind (counts_program hleft) fun _ => .pure _
  | declaration => exact .bind ((counts_declaration hleft).weaken (by omega)) fun _ => .pure _
  | body => exact .bind ((counts_body hleft).weaken (by omega)) fun _ => .pure _
  | block =>
      exact .bind (.measured fun n => (hstmt n).block.weaken (by omega)) fun _ => .pure _
  | condition keyword =>
      exact .bind ((counts_condition hleft keyword).weaken (by omega)) fun _ => .pure _
  | statement => exact .bind (.measured fun n => (hstmt n).statement) fun _ => .pure _
  | expression => exact .bind ((counts_expression hleft).weaken (by omega)) fun _ => .pure _
  | binary minimum =>
      exact .bind (.measured fun n => ((hexpr n).binary minimum).weaken (by omega)) fun _ => .pure _
  | unary => exact .bind (.measured fun n => (hexpr n).unary) fun _ => .pure _
  | primary =>
      exact .bind (.measured fun n => (hexpr n).primary.weaken (by omega)) fun _ => .pure _
  | call => exact .bind (.measured fun n => (hexpr n).call.weaken (by omega)) fun _ => .pure _
  | assignment =>
      refine .bind (.lift (keeps_location limits)) fun lhs => ?_
      exact .bind (.measured fun n => ((hexpr n).assignment lhs).weaken (by omega)) fun _ => .pure _
  | assignmentTo lhs =>
      exact .bind (.measured fun n => ((hexpr n).assignment lhs).weaken (by omega)) fun _ => .pure _
  | type | variableDecl | variableDecls | structDecl | formals | location | name =>
      exact .lift (.of_runs fun c => Parser.balanced_entry limits c _)

/-- What is read where so many calls may be open at once is what is read without regard to them,
unless there are less than four calls to each level of nesting that is left, and four more. -/
theorem parseWithin_eq (hc : c.Closed) (entry : Entry) (frames : Nat) :
    entry.parseWithin frames limits c = some (entry.parse limits c) ∨
      entry.parseWithin frames limits c = none ∧
        frames < 4 * (limits.depth - c.depth).toNat + 4 := by
  have hleft : limits.depth ≤ (c.depth : Int) + (limits.depth - c.depth).toNat := by omega
  obtain ⟨heq, hle, -⟩ := entry.counts hleft c hc rfl
  rw [← heq]
  by_cases hroom : (entry.counted limits c).2 ≤ frames
  · exact .inl (if_pos hroom)
  · exact .inr ⟨if_neg hroom, by omega⟩

/-- Calls in the arguments of each other need four calls to a level. -/
theorem parseWithin_of_nestedCalls {n frames : Nat} {rest : List Kind}
    (hkinds : c.kinds = nestedCalls n ++ rest) (hdepth : (c.depth + n : Int) ≤ limits.depth)
    (hframes : frames ≤ 4 * n) : Entry.expression.parseWithin frames limits c = none := by
  have hle : 4 * n + 1 ≤ (Entry.expression.counted limits c).2 :=
    le_bind (le_expression hkinds hdepth)
  have hover : ¬(Entry.expression.counted limits c).2 ≤ frames := by omega
  exact if_neg hover

end Entry

end Cmm

import Cmm.Parser.Entry
import Cmm.Proofs.Program.Guided
import Cmm.Trace

/-!
# Parsers that are driven from outside

Any part of a program may be asked for at any token, also behind an error.  The tokens stay as they
are, nothing is gone back over, and every level of nesting that is opened is closed again, but for
the one that exceeds the limit.
-/

namespace Cmm

namespace Parser

/-- However it ends, `p` leaves the tokens, and closes the levels that it opens, except for one that
is too deep.  If it succeeds, it has taken some number of tokens or more. -/
def Balanced {α : Type} (c : Cursor) (least : Nat) (p : Parser α) : Prop :=
  Runs c p (fun _ u _ => least ≤ u.length) fun e _ d d' => e.StopsAt d d'

namespace Balanced

variable {α β : Type} {c : Cursor} {i j : Nat} {p : Parser α} {f : α → Parser β}

theorem current {f : Token → Parser β} (h : Balanced c i (f c.current)) :
    Balanced c i (current >>= f) :=
  h

theorem weaken (h : Balanced c i p) (hj : j ≤ i) : Balanced c j p :=
  h.imp (fun _ _ _ _ hle => Nat.le_trans hj hle) fun _ _ _ _ _ he => he

theorem bind (hp : Balanced c i p) (hf : ∀ a d, Balanced d 0 (f a)) :
    Balanced c i (p >>= f) := by
  refine Runs.bind hp fun a u d _ hle => (hf a d).imp (fun b v e _ _ => ?_) fun _ _ _ _ _ he => he
  rw [List.length_append]
  omega

theorem give {g : α → List Node} (hp : Balanced c i p) :
    Balanced c i (do return g (← p)) :=
  hp.bind fun _ _ => Runs.pure (Nat.zero_le _)

theorem of_guided {front back : List Goal} (h : Guided False c i front p back) : Balanced c i p :=
  h.imp (fun _ _ _ _ hd => hd.1) fun _ _ _ _ _ he => he.1

end Balanced

/-! ## The parts of a program -/

section Parts

variable (limits : Limits) (c : Cursor)

theorem balanced_location : Balanced c 1 (location limits) :=
  .of_guided (guided_location nofun)

theorem balanced_binary (minimum : Int) : Balanced c 1 (binary limits minimum) :=
  .of_guided (.measured (p := fun steps => binaryIn limits steps minimum)
    ((exprGuided False limits _).binary c minimum (by omega) nofun))

theorem balanced_unary : Balanced c 1 (unary limits) :=
  .of_guided (guided_operand limits c)

/-- Unary operators are no part of what the grammar calls primary. -/
theorem balanced_primary : Balanced c 1 (primary limits) := by
  cases hop : UnaryOp.ofKind? c.current.kind with
  | none =>
      exact .of_guided (.measured ((exprGuided False limits _).primary c (by omega) nofun hop))
  | some op =>
      have hsymbol := UnaryOp.eq_symbol_of_ofKind? hop
      refine Runs.measured (Runs.current ?_)
      cases hl : c.current.lexeme with
      | symbol sign text =>
          obtain rfl : sign = op.symbol := by simpa [Token.kind, hl, Lexeme.kind] using hsymbol
          cases op <;> exact Runs.fail (Q := fun _ u _ => 1 ≤ u.length) ⟨rfl, rfl⟩
      | _ => simp [Token.kind, hl, Lexeme.kind] at hsymbol

theorem balanced_assignment (lhs : Loc) : Balanced c 2 (assignment limits lhs) :=
  .of_guided (.measured (p := fun steps => assignmentIn limits steps lhs)
    ((exprGuided False limits _).assignment c lhs (by omega) nofun))

theorem balanced_call : Balanced c 3 (call limits) :=
  .of_guided (.measured ((exprGuided False limits _).call c (by omega) nofun))

theorem balanced_block : Balanced c 1 (block limits) :=
  .of_guided (.measured ((stmtGuided False limits _).block c (by omega) nofun))

theorem balanced_statement : Balanced c 1 (statement limits) :=
  .of_guided (.measured ((stmtGuided False limits _).statement c (by omega) nofun))

end Parts

end Parser

/-- The number of tokens that reading a part takes at least: a program and a list of variables may be
empty. -/
def Entry.least : Entry → Nat
  | .program | .variableDecls => 0
  | _ => 1

/-- Every part of a program is read in balance, at whatever token it is asked for. -/
theorem Parser.balanced_entry (limits : Limits) (c : Cursor) (entry : Entry) :
    Balanced c entry.least (entry.parse limits) := by
  cases entry with
  | program => exact .give (.of_guided (guided_program nofun))
  | declaration => exact .give (.of_guided (guided_declaration nofun))
  | type => exact .current (.give (.of_guided (guided_type c)))
  | variableDecl => exact .give (.of_guided (guided_variableDecl c))
  | variableDecls => exact .give (.of_guided (guided_variableDecls c))
  | structDecl => exact .give (.of_guided (guided_structDecl c))
  | formals => exact .weaken (.give (.of_guided (guided_formals c))) (Nat.le_succ 1)
  | body => exact .give (.of_guided (guided_body nofun))
  | block => exact .give (balanced_block limits c)
  | condition keyword =>
      exact .weaken (.give (.of_guided (guided_condition keyword nofun))) (Nat.le_add_left 1 2)
  | statement => exact .give (balanced_statement limits c)
  | expression => exact .give (.of_guided (guided_expression nofun))
  | binary minimum => exact .give (balanced_binary limits c minimum)
  | unary => exact .give (balanced_unary limits c)
  | primary => exact .give (balanced_primary limits c)
  | location => exact .give (balanced_location limits c)
  | call => exact .weaken (.give (balanced_call limits c)) (Nat.le_add_left 1 2)
  | name message => exact .give (.of_guided (guided_name c message))
  | assignment =>
      refine .bind (balanced_location limits c) fun lhs d => ?_
      exact .weaken (.give (balanced_assignment limits d lhs)) (Nat.zero_le 2)
  | assignmentTo lhs => exact .weaken (.give (balanced_assignment limits c lhs)) (Nat.le_succ 1)

/-! ## Sequences of actions -/

namespace Cursor

def Answer.isTooDeep : Answer → Bool
  | .trees (.error ⟨.tooDeep _, _⟩) => true
  | _ => false

theorem depth_of_stopsAt {e : SyntaxError} {d d' : Cursor} (h : e.StopsAt d d') :
    d'.depth = d.depth + if (Answer.trees (.error e)).isTooDeep then 1 else 0 := by
  obtain ⟨cause, t⟩ := e
  cases cause with
  | unexpected message => exact congrArg depth h.1
  | tooDeep limit => exact congrArg depth h
  | tooHigh limit => exact congrArg depth h
  | exhausted => exact h.elim

theorem tokens_eq_append (c : Cursor) : c.tokens = c.before.reverse ++ c.ahead := rfl

theorem closed_iff {c : Cursor} :
    c.Closed ↔ c.tokens.getLast?.map Token.kind = some .endOfInput := by
  rw [tokens_eq_append, List.getLast?_append, Closed, kinds, List.getLast?_map]
  cases h : c.ahead.getLast? with
  | none => exact absurd (List.getLast?_eq_none_iff.1 h) c.ahead_ne_nil
  | some last => rfl

structure Driven (c : Cursor) (answer : Answer) (d : Cursor) : Prop where
  tokens_eq : d.tokens = c.tokens
  index_le : c.index ≤ d.index
  depth_eq : d.depth = c.depth + if answer.isTooDeep then 1 else 0

theorem Driven.closed {c d : Cursor} {answer : Answer} (h : Driven c answer d) (hc : c.Closed) :
    d.Closed := by
  rwa [closed_iff, h.tokens_eq, ← closed_iff]

theorem driven_advance (c : Cursor) : Driven c (.token c.advance.current) c.advance where
  tokens_eq := tokens_advance c
  index_le := by
    unfold advance
    split
    · exact Nat.le_refl _
    · exact Nat.le_succ _
  depth_eq := depth_advance c

theorem driven_perform (limits : Limits) {c : Cursor} (hc : c.Closed) (action : Action) :
    Driven c (c.perform limits action).1 (c.perform limits action).2 := by
  cases action with
  | advance => exact driven_advance c
  | peek distance => exact ⟨rfl, Nat.le_refl _, rfl⟩
  | parse entry =>
      have hend := Parser.balanced_entry limits c entry hc
      unfold Parser.Ends at hend
      unfold perform
      dsimp only
      split at hend
      · obtain ⟨u, hu, -⟩ := hend
        rename_i hrun
        rw [hrun]
        exact ⟨hu.tokens, by rw [hu.index]; exact Nat.le_add_right _ _, hu.depth⟩
      · obtain ⟨u, d, hu, hstop⟩ := hend
        rename_i d' hrun
        rw [hrun]
        obtain ⟨hbefore, hahead⟩ := hstop.same
        refine ⟨?_, ?_, ?_⟩
        · rw [← hu.tokens, tokens_eq_append, tokens_eq_append, hbefore, hahead]
        · change c.before.length ≤ d'.before.length
          rw [hbefore, hu.before]
          simp
        · rw [depth_of_stopsAt hstop, hu.depth]

theorem depth_behind (limits : Limits) {c : Cursor} (hc : c.Closed) (actions : List Action) :
    (behind (perform limits) c actions).depth =
      c.depth + (trace (perform limits) c actions).countP (·.1.isTooDeep) := by
  induction actions generalizing c with
  | nil => rfl
  | cons action rest ih =>
      have h := driven_perform limits hc action
      change (behind (perform limits) (c.perform limits action).2 rest).depth = _
      rw [ih (h.closed hc), h.depth_eq, trace, List.countP_cons]
      omega

end Cursor

end Cmm

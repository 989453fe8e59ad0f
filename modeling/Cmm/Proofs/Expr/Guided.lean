import Cmm.Proofs.Expr.Soundness
import Cmm.Proofs.Parser.Guided

/-!
# Expressions are read as the grammar says

The precedence of operators only decides which of the calls takes them: an operand ends where an
operator may come, and a whole expression where none comes.

A call with `n` tokens behind the current one needs at most `4 * n + 5` steps, since at most four
calls are made before a token is taken.
-/

namespace Cmm

/-- There is room for as many further levels as there are tokens to come and some more, and for
expressions of as many tokens as are to come. -/
def Limits.Room (limits : Limits) (c : Cursor) (more : Nat) : Prop :=
  (c.depth + c.after.length + more : Nat) ≤ limits.depth ∧ (c.after.length : Nat) ≤ limits.height

theorem Limits.Room.weaken {limits : Limits} {c : Cursor} {more : Nat} (h : limits.Room c more) :
    limits.Room c 0 := by
  simp only [Limits.Room] at h ⊢
  omega

namespace Parser

open Goal

variable {roomy : Prop} {limits : Limits} {steps : Nat} {c : Cursor}

/-! ## Names and locations -/

theorem guided_name (c : Cursor) (message : String) :
    Guided roomy c 1 [.name] (name message) [] := by
  refine .current ?_
  split
  · rename_i text h
    have hk : c.current.kind = .name := by simp [Token.kind, h, Lexeme.kind]
    exact .advance (by simp [hk]) (fun goals => by rw [hk]; rfl) fun d _ => .pure
  · rename_i h
    have hk : c.current.kind ≠ .name := by
      intro hk
      unfold Token.kind at hk
      cases hl : c.current.lexeme <;> simp_all [Lexeme.kind]
    exact .fail fun goals => by simp [next, take?, hk, isOptional]

theorem guided_fields {l : Loc} (hsteps : c.after.length < steps)
    (hroom : roomy → l.height + c.after.length ≤ limits.height) :
    Guided roomy c 0 [.fields] (fields limits steps l) [] := by
  induction steps generalizing c l with
  | zero => omega
  | succ steps ih =>
      refine .current (.accept (m := [.name, .fields]) (by simp) (fun goals => rfl) ?_ ?_)
      · intro d hd
        have hlength := hd.length
        simp only [List.length_singleton] at hlength
        refine .bind ((guided_name d _).frame [.fields]) fun id u d' hd' hu => ?_
        have hlength' := hd'.length
        have hroom' : roomy → (1 + l.height : Nat) + d'.after.length ≤ limits.height := by
          intro hr
          have := hroom hr
          omega
        refine .checkHeight (fun hr => ?_) (ih (by omega) hroom')
        have := hroom' hr
        simp only [Loc.height]
        omega
      · intro hdot
        exact .pure_of fun goals => next_drop (by simp [take?, hdot]) rfl goals

theorem guided_location (hroom : roomy → limits.Room c 0) :
    Guided roomy c 1 [.name, .fields] (location limits) [] := by
  refine .bind ((guided_name c _).frame [.fields]) fun id u d hu hlength => ?_
  have := hu.length
  refine .measured (guided_fields (by omega) fun hr => ?_)
  have := (hroom hr).2
  simp only [Loc.height]
  omega

/-! ## Expressions -/

/-- What is to come behind a binary expression whose operators have at least a given precedence:
weaker operators, if there are any. -/
def weakerThan (minimum : Int) : List Goal := if minimum ≤ 1 then [] else [.afterTerm]

/-- With enough steps, what is read as an expression is what the reader of the grammar takes. -/
structure ExprGuided (roomy : Prop) (limits : Limits) (steps : Nat) : Prop where
  binary : ∀ (c : Cursor) (minimum : Int), 4 * c.after.length + 4 ≤ steps →
    (roomy → limits.Room c 1) →
      Guided roomy c 1 [.exp] (binaryIn limits steps minimum) (weakerThan minimum)
  operators : ∀ (c : Cursor) (minimum : Int) (left : Expr), 4 * c.after.length + 1 ≤ steps →
    (roomy → limits.Room c 0 ∧ (left.height + c.after.length : Nat) ≤ limits.height) →
      Guided roomy c 0 [.afterTerm] (operatorsIn limits steps minimum left) (weakerThan minimum)
  unary : ∀ c : Cursor, 4 * c.after.length + 3 ≤ steps → (roomy → limits.Room c 0) →
    Guided roomy c 1 [.exp] (unaryIn limits steps) [.afterTerm]
  primary : ∀ c : Cursor, 4 * c.after.length + 2 ≤ steps → (roomy → limits.Room c 0) →
    UnaryOp.ofKind? c.current.kind = none →
      Guided roomy c 1 [.exp] (primaryIn limits steps) [.afterTerm]
  assignment : ∀ (c : Cursor) (lhs : Loc), 4 * c.after.length + 1 ≤ steps →
    (roomy → limits.Room c 0 ∧ (lhs.height + c.after.length : Nat) ≤ limits.height) →
      Guided roomy c 2 [sign .assign, .exp] (assignmentIn limits steps lhs) []
  call : ∀ c : Cursor, 4 * c.after.length + 1 ≤ steps → (roomy → limits.Room c 0) →
    Guided roomy c 3 [.name, sign .leftParen, .arguments, sign .rightParen]
      (callIn limits steps) []
  arguments : ∀ c : Cursor, 4 * c.after.length + 5 ≤ steps → (roomy → limits.Room c 1) →
    Guided roomy c 1 [.exp, .moreArguments] (argumentsIn limits steps) []

theorem next_operator {k : Kind} {op : BinaryOp} (h : BinaryOp.ofKind? k = some op)
    (goals : List Goal) : next (.afterTerm :: goals) k = some (.exp :: goals) := by
  have htake : take? .afterTerm k = some [.exp] := by simp [take?, operatorRest?, h]
  exact next_of_take? htake goals

theorem next_afterTerm {k : Kind} (h : BinaryOp.ofKind? k = none) (goals : List Goal) :
    next (.afterTerm :: goals) k = next goals k :=
  next_drop (by simp [take?, operatorRest?, h]) rfl goals

theorem next_afterName {k : Kind} (h : k ≠ .symbol .leftParen) (goals : List Goal) :
    next (.afterName :: goals) k = next (.fields :: .afterPath :: goals) k := by
  by_cases hdot : k = .symbol .dot
  · subst hdot
    rfl
  · have htake : take? .afterName k = take? .afterPath k := by
      simp only [take?]
    calc
      next (.afterName :: goals) k = next (.afterPath :: goals) k := by
        simp only [next, htake, isOptional]
      _ = next (.fields :: .afterPath :: goals) k :=
        (next_drop (by simp [take?, hdot]) rfl _).symm

theorem leftover_location {g g' rest : Goal} (hname : c.current.kind = .name)
    (hparen : c.kindAhead? 1 ≠ some (.symbol .leftParen))
    (hg : ∀ goals, next (g :: goals) .name = some (g' :: goals))
    (hg' : ∀ k, k ≠ .symbol .leftParen → ∀ goals,
      next (g' :: goals) k = next (.fields :: rest :: goals) k) (goals : List Goal) :
    leftover (g :: goals) c.kinds = leftover (.name :: .fields :: rest :: goals) c.kinds := by
  have hrest : next (.name :: .fields :: rest :: goals) .name = some (.fields :: rest :: goals) :=
    rfl
  rw [Cursor.kinds_eq_cons, hname, leftover_of_next (hg goals), leftover_of_next hrest]
  cases hafter : c.after with
  | nil => rfl
  | cons t ts =>
      have ht : t.kind ≠ .symbol .leftParen := by simpa [Cursor.kindAhead?, hafter] using hparen
      exact leftover_congr (hg' t.kind ht goals) _

theorem leftover_call {g g' : Goal} {r : List Goal} (hname : c.current.kind = .name)
    (hparen : c.kindAhead? 1 = some (.symbol .leftParen))
    (hg : ∀ goals, next (g :: goals) .name = some (g' :: goals))
    (hg' : ∀ goals, next (g' :: goals) (.symbol .leftParen) =
      some (.arguments :: sign .rightParen :: r ++ goals)) (goals : List Goal) :
    leftover (g :: goals) c.kinds = leftover
      (.name :: sign .leftParen :: .arguments :: sign .rightParen :: r ++ goals) c.kinds := by
  cases hafter : c.after with
  | nil => simp [Cursor.kindAhead?, hafter] at hparen
  | cons t ts =>
      have ht : t.kind = .symbol .leftParen := by simpa [Cursor.kindAhead?, hafter] using hparen
      rw [Cursor.kinds_eq_cons, hname, hafter, List.map_cons, ht, leftover_of_next (hg goals),
        leftover_of_next (hg' goals)]
      rfl

theorem next_arguments {k : Kind} (h : k ≠ .symbol .rightParen) (goals : List Goal) :
    next (.arguments :: sign .rightParen :: goals) k =
      next (.exp :: .moreArguments :: sign .rightParen :: goals) k := by
  cases hexp : expRest? k with
  | none => simp [next, take?, hexp, isOptional, h]
  | some rest => simp [next, take?, hexp]

namespace ExprGuided

variable (h : ExprGuided roomy limits steps)

include h

theorem guided_binary (c : Cursor) (minimum : Int) (hsteps : 4 * c.after.length + 4 ≤ steps + 1)
    (hroom : roomy → limits.Room c 1) :
    Guided roomy c 1 [.exp] (binaryIn limits (steps + 1) minimum) (weakerThan minimum) := by
  have hroom' : roomy → limits.Room c.deeper 0 := by
    intro hr
    have := hroom hr
    simp only [Limits.Room, Cursor.deeper] at this ⊢
    omega
  refine .nested (fun hr => ?_) ?_
  · have := (hroom hr).1
    omega
  · refine (h.unary c.deeper (by simpa using hsteps) hroom').bind_of (yields_height_unary _) ?_
    intro left u d hu hi hheight
    have hlength := hu.length
    have hdepth := hu.depth
    refine (h.operators d minimum left (by simp at hlength; omega) fun hr => ?_).weaken (by omega)
    have := hroom' hr
    simp only [Limits.Room] at this ⊢
    omega

theorem guided_operators (c : Cursor) (minimum : Int) (left : Expr)
    (hsteps : 4 * c.after.length + 1 ≤ steps + 1)
    (hroom : roomy → limits.Room c 0 ∧ (left.height + c.after.length : Nat) ≤ limits.height) :
    Guided roomy c 0 [.afterTerm] (operatorsIn limits (steps + 1) minimum left)
      (weakerThan minimum) := by
  refine .current ?_
  split
  · rename_i hop
    refine .pure_of fun goals => (next_afterTerm hop goals).trans ?_
    unfold weakerThan
    split
    · rfl
    · exact (next_afterTerm hop goals).symm
  rename_i op hop
  have hsymbol := BinaryOp.eq_symbol_of_ofKind? hop
  have hone := Written.one_le_precedence op
  split
  · rename_i hlt
    rw [weakerThan, if_neg (by omega)]
    exact .pure
  · rename_i hle
    refine .advance (m := [.exp]) (by simp [hsymbol]) (fun goals => next_operator hop goals) ?_
    intro d hd
    have hlength := hd.length
    have hdepth := hd.depth
    have hweaker : weakerThan (op.precedence + 1) = [.afterTerm] := if_neg (by omega)
    have hmin : op.precedence + 1 ≤ 7 := Written.precedence_lt_seven op
    simp only [List.length_singleton] at hlength
    have hright := h.binary d (op.precedence + 1) (by omega) fun hr => by
      have := (hroom hr).1
      simp only [Limits.Room] at this ⊢
      omega
    rw [hweaker] at hright
    refine hright.bind_of (yields_height_binary _ hmin) fun right u d' hu hi hheight => ?_
    have hlength' := hu.length
    have hdepth' := hu.depth
    refine .checkHeight (fun hr => ?_) (h.operators d' minimum _ (by omega) fun hr => ?_)
    · have := (hroom hr).2
      simp only [Expr.height]
      omega
    · have := hroom hr
      simp only [Limits.Room, Expr.height] at this ⊢
      omega

theorem guided_unary (c : Cursor) (hsteps : 4 * c.after.length + 3 ≤ steps + 1)
    (hroom : roomy → limits.Room c 0) :
    Guided roomy c 1 [.exp] (unaryIn limits (steps + 1)) [.afterTerm] := by
  refine .current ?_
  split
  · rename_i hop
    exact h.primary c (by omega) hroom hop
  · rename_i op hop
    have hsymbol := UnaryOp.eq_symbol_of_ofKind? hop
    refine .advance (m := [.exp]) (by simp [hsymbol]) (fun goals => ?_) fun d hd => ?_
    · rw [hsymbol]
      cases op <;> rfl
    have hlength := hd.length
    have hdepth := hd.depth
    simp only [List.length_singleton] at hlength
    have hroom' : roomy → limits.Room d.deeper 0 := by
      intro hr
      have := hroom hr
      simp only [Limits.Room, Cursor.deeper] at this ⊢
      omega
    have hoperand : Guided roomy d 1 [.exp] (nested limits (unaryIn limits steps)) [.afterTerm] := by
      refine .nested (fun hr => ?_) (h.unary d.deeper (by simp; omega) hroom')
      have := (hroom hr).1
      omega
    have hheight : Yields d (nested limits (unaryIn limits steps))
        fun e u _ => e.height ≤ u.length :=
      .nested (fun _ => yields_height_unary _) fun _ => trivial
    refine hoperand.bind_of hheight fun operand u d' hu hi hle => ?_
    have hlength' := hu.length
    refine .checkHeight (fun hr => ?_) .pure
    have := (hroom hr).2
    simp only [Expr.height]
    omega

theorem guided_assignment (c : Cursor) (lhs : Loc) (hsteps : 4 * c.after.length + 1 ≤ steps + 1)
    (hroom : roomy → limits.Room c 0 ∧ (lhs.height + c.after.length : Nat) ≤ limits.height) :
    Guided roomy c 2 [sign .assign, .exp] (assignmentIn limits (steps + 1) lhs) [] := by
  refine .expect (by simp) fun d hd => ?_
  have hlength := hd.length
  have hdepth := hd.depth
  simp only [List.length_singleton] at hlength
  have hright := h.binary d 1 (by omega) fun hr => by
    have := (hroom hr).1
    simp only [Limits.Room] at this ⊢
    omega
  refine hright.bind_of (yields_height_binary _ (by omega)) fun rhs u d' hu hi hheight => ?_
  have hlength' := hu.length
  refine .checkHeight (fun hr => ?_) .pure
  have := (hroom hr).2
  simp only [Assignment.toExpr, Expr.height]
  omega

theorem guided_arguments (c : Cursor) (hsteps : 4 * c.after.length + 5 ≤ steps + 1)
    (hroom : roomy → limits.Room c 1) :
    Guided roomy c 1 [.exp, .moreArguments] (argumentsIn limits (steps + 1)) [] := by
  refine .bind ((h.binary c 1 (by omega) hroom).frame [.moreArguments]) fun first u d hu hi => ?_
  have hlength := hu.length
  have hdepth := hu.depth
  refine .accept (m := [.exp, .moreArguments]) (by simp) (fun goals => rfl) ?_ ?_
  · intro d' hd'
    have hlength' := hd'.length
    have hdepth' := hd'.depth
    simp only [List.length_singleton] at hlength'
    have hrest := h.arguments d' (by omega) fun hr => by
      have := hroom hr
      simp only [Limits.Room] at this ⊢
      omega
    exact .bind hrest fun rest v e _ _ => .pure
  · intro hcomma
    exact .pure_of fun goals => next_drop (by simp [take?, hcomma]) rfl goals

theorem guided_call (c : Cursor) (hsteps : 4 * c.after.length + 1 ≤ steps + 1)
    (hroom : roomy → limits.Room c 0) :
    Guided roomy c 3 [.name, sign .leftParen, .arguments, sign .rightParen]
      (callIn limits (steps + 1)) [] := by
  refine .bind ((guided_name c _).frame [sign .leftParen, .arguments, sign .rightParen]) ?_
  intro callee u d hu hi
  have hlength := hu.length
  have hdepth := hu.depth
  refine .expect (by simp) fun d' hd' => .at? (.ite_bind ?_)
  have hlength' := hd'.length
  have hdepth' := hd'.depth
  simp only [List.length_singleton] at hlength'
  have hargs : Guided roomy d' 0 [.arguments, sign .rightParen]
      (if decide (d'.current.kind = .symbol .rightParen) = true then Pure.pure []
        else argumentsIn limits steps) [sign .rightParen] := by
    split
    · rename_i hright
      refine .pure_of fun goals => ?_
      rw [of_decide_eq_true hright]
      rfl
    · rename_i hright
      refine .of_next (m := [.exp, .moreArguments, sign .rightParen])
        (fun goals => next_arguments (by simpa using hright) goals) ?_
      refine ((h.arguments d' (by omega) fun hr => ?_).frame [sign .rightParen]).weaken (by omega)
      have := hroom hr
      simp only [Limits.Room] at this ⊢
      omega
  have hheight : Yields d'
      (if decide (d'.current.kind = .symbol .rightParen) = true then Pure.pure []
        else argumentsIn limits steps)
      fun es v _ => Expr.greatestHeight es ≤ v.length := by
    split
    · exact .pure (Nat.le_refl 0)
    · exact yields_height_arguments d'
  refine hargs.bind_of hheight fun args v e hv _ hle => ?_
  have hlength'' := hv.length
  refine .expect (by simp) fun e' he' => .checkHeight (fun hr => ?_) .pure
  have := (hroom hr).2
  simp only [Call.toExpr, Expr.height]
  omega

theorem guided_primary (c : Cursor) (hsteps : 4 * c.after.length + 2 ≤ steps + 1)
    (hroom : roomy → limits.Room c 0) (hunary : UnaryOp.ofKind? c.current.kind = none) :
    Guided roomy c 1 [.exp] (primaryIn limits (steps + 1)) [.afterTerm] := by
  have leaf : ∀ e : Expr, c.current.kind ≠ .endOfInput →
      expRest? c.current.kind = some [.afterTerm] →
      Guided roomy c 1 [.exp] (do advance; return e) [.afterTerm] :=
    fun e hk hrest =>
      have htake : take? .exp c.current.kind = some [.afterTerm] := hrest
      .advance hk (fun goals => next_of_take? htake goals) fun d _ => .pure
  have hkind : c.current.kind = c.current.lexeme.kind := rfl
  refine .current ?_
  split
  · rename_i value hl
    exact leaf _ (by simp [hkind, hl, Lexeme.kind]) (by rw [hkind, hl]; rfl)
  · rename_i raw hl
    exact leaf _ (by simp [hkind, hl, Lexeme.kind]) (by rw [hkind, hl]; rfl)
  · rename_i text hl
    exact leaf _ (by simp [hkind, hl, Lexeme.kind]) (by rw [hkind, hl]; rfl)
  · rename_i text hl
    exact leaf _ (by simp [hkind, hl, Lexeme.kind]) (by rw [hkind, hl]; rfl)
  · rename_i text hl
    refine .advance (m := [.exp, sign .rightParen, .afterTerm])
      (by simp [hkind, hl, Lexeme.kind]) (fun goals => by rw [hkind, hl]; rfl) fun d hd => ?_
    have hlength := hd.length
    have hdepth := hd.depth
    simp only [List.length_singleton] at hlength
    have hinner := h.binary d 1 (by omega) fun hr => by
      have := hroom hr
      simp only [Limits.Room] at this ⊢
      omega
    refine .bind (hinner.frame [sign .rightParen, .afterTerm]) fun e u d' hu hi => ?_
    exact .expect (by simp) fun d'' _ => .pure
  · rename_i text hl
    have hname : c.current.kind = .name := by simp [hkind, hl, Lexeme.kind]
    refine .get ?_
    split
    · rename_i hparen
      refine .of_leftover (leftover_call (r := [.afterTerm]) hname hparen (fun goals => rfl)
        fun goals => rfl) ?_
      exact .bind ((h.call c (by omega) hroom).frame [.afterTerm]) fun e u d _ _ => .pure
    · rename_i hparen
      refine .of_leftover (m := [.name, .fields, .afterPath]) (leftover_location hname hparen
        (fun goals => rfl) fun k hk goals => next_afterName hk goals) ?_
      refine ((guided_location hroom).frame [.afterPath]).bind_of (yields_height_location c) ?_
      intro l u d hu hi hheight
      have hlength := hu.length
      have hdepth := hu.depth
      refine .at? ?_
      split
      · rename_i hassign
        have hassign : d.current.kind = .symbol .assign := by simpa using hassign
        refine .of_next (m := [sign .assign, .exp]) (fun goals => by rw [hassign]; rfl) ?_
        have hrhs := h.assignment d l (by omega) fun hr => by
          have := hroom hr
          simp only [Limits.Room] at this ⊢
          omega
        refine (hrhs.weaken (Nat.zero_le _)).bind_of (yields_end_assignment d l) ?_
        exact fun a v e _ _ hop => .pure_of fun goals => (next_afterTerm hop goals).symm
      · rename_i hassign
        have hassign : d.current.kind ≠ .symbol .assign := by simpa using hassign
        have htake : take? .afterPath d.current.kind = take? .afterTerm d.current.kind := by
          simp only [take?, pathRest?]
        exact .pure_of fun goals => by simp [next, htake, isOptional]
  · rename_i h1 h2 h3 h4 h5 h6
    have hnone : expRest? c.current.kind = none := by
      rw [hkind] at hunary ⊢
      cases hl : c.current.lexeme with
      | number | string | name => simp_all
      | keyword word text => cases word <;> first | rfl | simp_all
      | symbol s text => cases s <;> first | rfl | simp_all [Lexeme.kind, UnaryOp.ofKind?]
      | endOfInput => rfl
    exact .fail fun goals => by simp [next, take?, hnone, isOptional]

theorem succ : ExprGuided roomy limits (steps + 1) where
  binary := h.guided_binary
  operators := h.guided_operators
  unary := h.guided_unary
  primary := h.guided_primary
  assignment := h.guided_assignment
  call := h.guided_call
  arguments := h.guided_arguments

end ExprGuided

theorem exprGuided (roomy : Prop) (limits : Limits) (steps : Nat) :
    ExprGuided roomy limits steps := by
  induction steps with
  | zero =>
      constructor <;> intros <;> omega
  | succ steps ih => exact ih.succ

theorem guided_operand (limits : Limits) (c : Cursor) :
    Guided False c 1 [.exp] (unary limits) [.afterTerm] :=
  .measured ((exprGuided False limits _).unary c (by omega) nofun)

theorem guided_expression {roomy : Prop} {limits : Limits} {c : Cursor}
    (hroom : roomy → limits.Room c 1) :
    Guided roomy c 1 [.exp] (expression limits) [] :=
  .measured (p := fun steps => binaryIn limits steps 1)
    ((exprGuided roomy limits _).binary c 1 (by omega) hroom)

end Parser

end Cmm

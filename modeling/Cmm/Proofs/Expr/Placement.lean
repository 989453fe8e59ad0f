import Cmm.Proofs.Expr.Soundness
import Cmm.Proofs.Node.Placement

/-!
# Expressions on their tokens

An expression is placed on the tokens that it is read from.  The loop over the operators and the
rest of an assignment carry the tokens of what stands on the left.
-/

namespace Cmm

namespace Placed

variable {part : Component} {parts : List Component} {c d : Cursor} {t : Token} {u v : List Token}

theorem here_of_reads (h : Placed (part :: parts) u) (hu : c.Reads u d) :
    Placed (.here c.current.position :: part :: parts) u := by
  obtain ⟨t, u, rfl⟩ := List.exists_cons_of_ne_nil (h.ne_nil (List.cons_ne_nil _ _))
  obtain ⟨rfl, -⟩ := hu.head
  exact .here h

theorem here_of_reads_append (h : Placed parts (u ++ d.current :: v)) (hu : c.Reads u d) :
    Placed (.here c.current.position :: parts) (u ++ d.current :: v) := by
  cases u with
  | nil =>
      obtain ⟨hcurrent, -⟩ := List.cons.inj hu.ahead
      rw [hcurrent]
      exact .here h
  | cons t u =>
      obtain ⟨rfl, -⟩ := hu.head
      exact .here h

theorem sign {s : Symbol} (h : Placed parts u) (ht : t.kind = .symbol s) :
    Placed (.sign s :: parts) (t :: u) :=
  .lexeme (Token.plain_eq_ofSymbol_iff.2 ht) h

theorem word {w : Keyword} (h : Placed parts u) (ht : t.kind = .keyword w) :
    Placed (.word w :: parts) (t :: u) :=
  .lexeme (Token.plain_eq_ofKeyword_iff.2 ht) h

end Placed

namespace Parser

variable {limits : Limits} {steps : Nat} {c : Cursor}

/-! ## Names and locations -/

theorem yields_placed_name (c : Cursor) (message : String) :
    Yields c (name message) fun id u _ => id.position = c.current.position ∧
      id.toNode.PlacedOn u := by
  refine .current ?_
  split
  · rename_i text h
    refine .advance (by simp [Token.kind, Lexeme.kind, h]) (.pure ⟨rfl, ?_⟩)
    exact Node.Form.name.placedOn (.here (.lexeme (by simp [Token.plain, h, Lexeme.plain]) .nil))
  · exact .fail trivial

theorem yields_placed_fields (c : Cursor) {l : Loc} {u : List Token} (hl : l.toNode.PlacedOn u) :
    Yields c (fields limits steps l) fun l' v _ => l'.toNode.PlacedOn (u ++ v) := by
  induction steps generalizing c l u with
  | zero => exact .exhausted trivial
  | succ steps ih =>
      refine .current (.accept (by simp) (fun hdot => ?_) fun _ => .pure (by simpa using hl))
      refine .bind (yields_placed_name _ _) fun id v d _ hid => ?_
      refine .checkHeight (fun _ => ?_) fun _ => trivial
      have hfield : (Loc.field l id c.current.position).toNode.PlacedOn (u ++ c.current :: v) :=
        Node.Form.dot.placedOn (hl.append (.here (hid.2.sign hdot)))
      refine (ih d hfield).yields fun l' w e _ hl' => ?_
      simpa using hl'

theorem yields_placed_location (c : Cursor) :
    Yields c (location limits) fun l u _ => l.toNode.PlacedOn u := by
  refine .bind (yields_placed_name _ _) fun id u d _ hid => ?_
  exact .measured (yields_placed_fields (l := .name id) d hid.2)

/-! ## Expressions -/

theorem isExpression_location (l : Loc) : l.toNode.isExpression = true := by
  cases l <;> rfl

theorem isExpression_expr (e : Expr) : e.toNode.isExpression = true := by
  cases e with
  | loc l => exact isExpression_location l
  | _ => rfl

/-- What is read with a number of steps is placed on the tokens that were read. -/
structure ExprPlaced (limits : Limits) (steps : Nat) : Prop where
  binary : ∀ (c : Cursor) (minimum : Int),
    Yields c (binaryIn limits steps minimum) fun e u _ => e.toNode.PlacedOn u
  operators : ∀ (c : Cursor) (minimum : Int) (left : Expr) (u : List Token),
    left.toNode.PlacedOn u →
      Yields c (operatorsIn limits steps minimum left) fun e v _ => e.toNode.PlacedOn (u ++ v)
  unary : ∀ c : Cursor, Yields c (unaryIn limits steps) fun e u _ => e.toNode.PlacedOn u
  primary : ∀ c : Cursor, Yields c (primaryIn limits steps) fun e u _ => e.toNode.PlacedOn u
  assignment : ∀ (c : Cursor) (lhs : Loc) (u : List Token), lhs.toNode.PlacedOn u →
    Yields c (assignmentIn limits steps lhs) fun a v _ => a.toNode.PlacedOn (u ++ v)
  call : ∀ c : Cursor, Yields c (callIn limits steps) fun e u _ => e.toNode.PlacedOn u
  arguments : ∀ c : Cursor, Yields c (argumentsIn limits steps) fun es u _ =>
    es ≠ [] ∧ Placed (Component.withCommas (Expr.toNodes es)) u

namespace ExprPlaced

theorem zero : ExprPlaced limits 0 where
  binary _ _ := .exhausted trivial
  operators _ _ _ _ _ := .exhausted trivial
  unary _ := .exhausted trivial
  primary _ := .exhausted trivial
  assignment _ _ _ _ := .exhausted trivial
  call _ := .exhausted trivial
  arguments _ := .exhausted trivial

variable (h : ExprPlaced limits steps)

include h

theorem yields_binary (c : Cursor) (minimum : Int) :
    Yields c (binaryIn limits (steps + 1) minimum) fun e u _ => e.toNode.PlacedOn u := by
  refine .nested (fun _ => ?_) fun _ => trivial
  exact .bind (h.unary _) fun left u d _ hleft => h.operators d minimum left u hleft

theorem yields_operators (c : Cursor) (minimum : Int) {left : Expr} {u : List Token}
    (hleft : left.toNode.PlacedOn u) :
    Yields c (operatorsIn limits (steps + 1) minimum left)
      fun e v _ => e.toNode.PlacedOn (u ++ v) := by
  refine .current ?_
  split
  · exact .pure (by simpa using hleft)
  rename_i op hop
  have hsymbol := BinaryOp.eq_symbol_of_ofKind? hop
  split
  · exact .pure (by simpa using hleft)
  · refine .advance (by simp [hsymbol]) (.bind (h.binary _ _) fun right v d _ hright => ?_)
    refine .checkHeight (fun _ => ?_) fun _ => trivial
    have hwhole : (Expr.binary op left right c.current.position).toNode.PlacedOn
        (u ++ c.current :: v) :=
      Node.Form.binary.placedOn (hleft.append (.here (hright.sign hsymbol)))
    refine (h.operators d minimum _ _ hwhole).yields fun e w d' _ he => ?_
    simpa using he

theorem yields_unary (c : Cursor) :
    Yields c (unaryIn limits (steps + 1)) fun e u _ => e.toNode.PlacedOn u := by
  refine .current ?_
  split
  · exact h.primary c
  · rename_i op hop
    have hsymbol := UnaryOp.eq_symbol_of_ofKind? hop
    refine .advance (by simp [hsymbol]) ?_
    have hnested : Yields c.advance (nested limits (unaryIn limits steps))
        fun e u _ => e.toNode.PlacedOn u :=
      .nested (fun _ => h.unary _) fun _ => trivial
    refine .bind hnested fun operand u d _ hoperand => ?_
    refine .checkHeight (fun _ => .pure ?_) fun _ => trivial
    rw [List.append_nil]
    exact Node.Form.unary.placedOn (.here (hoperand.sign hsymbol))

theorem yields_assignment (c : Cursor) {lhs : Loc} {u : List Token}
    (hlhs : lhs.toNode.PlacedOn u) :
    Yields c (assignmentIn limits (steps + 1) lhs) fun a v _ => a.toNode.PlacedOn (u ++ v) := by
  refine .expect (by simp) (fun hsign => ?_) fun _ => trivial
  refine .bind (h.binary _ 1) fun rhs v d _ hrhs => ?_
  refine .checkHeight (fun _ => .pure ?_) fun _ => trivial
  rw [List.append_nil]
  exact Node.Form.assign.placedOn (hlhs.append (.here (hrhs.sign hsign)))

theorem yields_arguments (c : Cursor) :
    Yields c (argumentsIn limits (steps + 1)) fun es u _ =>
      es ≠ [] ∧ Placed (Component.withCommas (Expr.toNodes es)) u := by
  refine .bind (h.binary c 1) fun first u d _ hfirst => ?_
  refine .accept (by simp) (fun hcomma => ?_) fun _ => .pure ⟨by simp, ?_⟩
  · refine .bind (h.arguments _) fun rest v e _ ⟨hne, hrest⟩ => .pure ⟨by simp, ?_⟩
    obtain ⟨second, rest, rfl⟩ := List.exists_cons_of_ne_nil hne
    rw [List.append_nil]
    exact hfirst.append (hrest.sign hcomma)
  · rw [List.append_nil]
    exact hfirst

theorem yields_call (c : Cursor) :
    Yields c (callIn limits (steps + 1)) fun e u _ => e.toNode.PlacedOn u := by
  refine .bind (yields_placed_name c _) fun callee u d hu ⟨hposition, hcallee⟩ => ?_
  refine .expect (by simp) (fun hleft => ?_) fun _ => trivial
  have hargs : Yields d.advance
      (if decide (d.advance.current.kind = .symbol .rightParen) = true then Pure.pure []
        else argumentsIn limits steps)
      fun es v _ => Placed (Component.withCommas (Expr.toNodes es)) v := by
    split
    · exact .pure .nil
    · exact (h.arguments _).yields fun es v e _ hes => hes.2
  refine .at? (.ite_bind (.bind hargs fun es v e _ hes => ?_))
  refine .expect (by simp) (fun hright => ?_) fun _ => trivial
  refine .checkHeight (fun _ => .pure ?_) fun _ => trivial
  have hlist : (Node.list .expressions (Expr.toNodes es) d.current.position).PlacedOn
      (d.current :: (v ++ [e.current])) :=
    Node.Form.expressions.placedOn
      (.here ((hes.append (Placed.nil.sign hright)).sign hleft))
  have hplace := hcallee.here_of_reads hu
  rw [← hposition] at hplace
  exact Node.Form.call.placedOn (hplace.append hlist)

theorem yields_primary (c : Cursor) :
    Yields c (primaryIn limits (steps + 1)) fun e u _ => e.toNode.PlacedOn u := by
  have leaf : ∀ (e : Expr) (l : Lexeme), c.current.kind ≠ .endOfInput →
      e.toNode.Form [.here c.current.position, .lexeme l] → c.current.plain = l →
      Yields c (do advance; return e) fun e u _ => e.toNode.PlacedOn u :=
    fun e l hk hform hplain => .advance hk (.pure (hform.placedOn (.here (.lexeme hplain .nil))))
  have hkind : c.current.kind = c.current.lexeme.kind := rfl
  have hplain : c.current.plain = c.current.lexeme.plain := rfl
  refine .current ?_
  split
  · rename_i value hl
    exact leaf _ (.number value) (by simp [hkind, hl, Lexeme.kind]) .number
      (by rw [hplain, hl]; rfl)
  · rename_i raw hl
    exact leaf _ (.string raw) (by simp [hkind, hl, Lexeme.kind]) .string (by rw [hplain, hl]; rfl)
  · rename_i text hl
    exact leaf _ (.ofKeyword .trueWord) (by simp [hkind, hl, Lexeme.kind]) (@Node.Form.truth true _)
      (by rw [hplain, hl]; rfl)
  · rename_i text hl
    exact leaf _ (.ofKeyword .falseWord) (by simp [hkind, hl, Lexeme.kind])
      (@Node.Form.truth false _)
      (by rw [hplain, hl]; rfl)
  · rename_i text hl
    have hleft : c.current.kind = .symbol .leftParen := by simp [hkind, hl, Lexeme.kind]
    refine .advance (by simp [hleft]) (.bind (h.binary _ 1) fun e u d _ he => ?_)
    refine .expect (by simp) (fun hright => .pure ?_) fun _ => trivial
    exact (Node.Form.parens (isExpression_expr e)).placedOn
      ((he.append (Placed.nil.sign hright)).sign hleft)
  · refine .get ?_
    split
    · refine .bind (h.call c) fun e u d _ he => .pure ?_
      rwa [List.append_nil]
    · refine .bind (yields_placed_location c) fun l u d _ hl => .at? ?_
      split
      · refine .bind (h.assignment d l u hl) fun a v e _ ha => .pure ?_
        rwa [List.append_nil]
      · refine .pure ?_
        rwa [List.append_nil]
  · exact .fail trivial

theorem succ : ExprPlaced limits (steps + 1) where
  binary := h.yields_binary
  operators c minimum _ _ := h.yields_operators c minimum
  unary := h.yields_unary
  primary := h.yields_primary
  assignment c _ _ := h.yields_assignment c
  call := h.yields_call
  arguments := h.yields_arguments

end ExprPlaced

theorem exprPlaced (limits : Limits) (steps : Nat) : ExprPlaced limits steps := by
  induction steps with
  | zero => exact ExprPlaced.zero
  | succ steps ih => exact ih.succ

theorem yields_placed_expression (c : Cursor) :
    Yields c (expression limits) fun e u _ => e.toNode.PlacedOn u :=
  .measured (p := fun steps => binaryIn limits steps 1) ((exprPlaced limits _).binary c 1)

theorem yields_placed_assignment (c : Cursor) {lhs : Loc} {u : List Token}
    (hlhs : lhs.toNode.PlacedOn u) :
    Yields c (assignment limits lhs) fun a v _ => a.toNode.PlacedOn (u ++ v) :=
  .measured (p := fun steps => assignmentIn limits steps lhs)
    ((exprPlaced limits _).assignment c lhs u hlhs)

theorem yields_placed_call (c : Cursor) :
    Yields c (call limits) fun e u _ => e.toNode.PlacedOn u :=
  .measured ((exprPlaced limits _).call c)

end Parser

end Cmm

import Cmm.Proofs.Expr.Truncated
import Cmm.Proofs.Node.Alike
import Cmm.Proofs.Parser.Compared

/-!
# Expressions from paired tokens

Which operator binds to what, and where an expression ends, depends on the kinds of the tokens only.
-/

namespace Cmm

open Node

/-! ## What is built -/

abbrev builtByTree {α : Type} (toNode : α → Node) : Built α :=
  ⟨fun P a b => Alike P (toNode a) (toNode b), fun hP a => alike_refl hP (toNode a)⟩

instance : Built Name := builtByTree Name.toNode

instance : Built Loc := builtByTree Loc.toNode

instance : Built Expr := builtByTree Expr.toNode

instance : Built Assignment := builtByTree Assignment.toNode

instance : Built Call := builtByTree Call.toNode

variable {P : Token → Token → Prop}

theorem Loc.height_eq_of_alike {l l' : Loc} (h : Built.Alike P l l') : l.height = l'.height := by
  rw [← l.height_toNode, ← l'.height_toNode]
  exact Alike.height_eq h

theorem Expr.height_eq_of_alike {e e' : Expr} (h : Built.Alike P e e') :
    e.height = e'.height := by
  rw [← e.height_toNode, ← e'.height_toNode]
  exact Alike.height_eq h

theorem Name.placed {id id' : Name} (h : Built.Alike P id id') :
    Token.Placed P id.position id'.position := by
  cases h with
  | name h => exact ⟨_, _, h, rfl, rfl⟩

theorem Expr.alike_toNodes {es es' : List Expr} (h : Built.Alike P es es') :
    AllAlike P (toNodes es) (toNodes es') := by
  rw [toNodes_eq_map, toNodes_eq_map, AllAlike, List.forall₂_map_left_iff,
    List.forall₂_map_right_iff]
  exact h

inductive Lexeme.Like : Lexeme → Lexeme → Prop
  | number (value value' : Int) : Like (.number value) (.number value')
  | string (raw raw' : String) : Like (.string raw) (.string raw')
  | name (text text' : String) : Like (.name text) (.name text')
  | keyword (word : Keyword) (text text' : String) : Like (.keyword word text) (.keyword word text')
  | symbol (sign : Symbol) (text text' : String) : Like (.symbol sign text) (.symbol sign text')
  | endOfInput : Like .endOfInput .endOfInput

theorem Lexeme.like_of_kind_eq {l l' : Lexeme} (h : l.kind = l'.kind) : l.Like l' := by
  cases l <;> cases l' <;> cases h <;> constructor

theorem Overlap.like (S : Overlap) {t u : Token} (h : S.Pairs t u) : t.lexeme.Like u.lexeme :=
  Lexeme.like_of_kind_eq (S.kind_eq h)

theorem Overlap.placed (S : Overlap) {t u : Token} (h : S.Pairs t u) :
    Token.Placed S.Pairs t.position u.position :=
  ⟨t, u, h, rfl, rfl⟩

namespace Parser

variable {S : Overlap} {limits : Limits} {m n : Nat} {c d : Cursor}

/-! ## Names and locations -/

theorem agree_name (message : String) : Agree S 0 c d (name message) (name message) := by
  apply Agree.current
  intro u hu
  have hlike := S.like hu
  generalize ht : c.current = t at hu hlike
  obtain ⟨l, p⟩ := t
  obtain ⟨l', p'⟩ := u
  cases hlike with
  | name text text' =>
      exact .advance (by simp [ht, Token.kind, Lexeme.kind]) fun _ _ => .pure (Alike.name hu)
  | _ => exact .fail

theorem agree_fields {l l' : Loc} (h : Built.Alike S.Pairs l l') :
    Agree S 0 c d (fields limits m l) (fields limits n l') := by
  induction m generalizing c d n l l' with
  | zero => exact .exhausted
  | succ m ih =>
      refine .of_steps n (q := fun n => fields limits n l') rfl fun n => ?_
      apply Agree.current
      intro u hu
      apply Agree.accept (by simp)
      · intro c' d'
        apply Agree.bind (agree_name _)
        intro id id' c₂ d₂ hid
        have hlonger : Built.Alike S.Pairs (Loc.field l id c.current.position)
            (Loc.field l' id' u.position) := .dot h hid (S.placed hu)
        exact .checkHeight hu (Loc.height_eq_of_alike hlonger) (ih hlonger)
      · exact .pure h

theorem agree_location : Agree S 0 c d (location limits) (location limits) :=
  .bind (agree_name _) fun _ _ _ _ hid => .measured fun _ _ => agree_fields hid

/-! ## Expressions -/

theorem strays_name_bind {α : Type} {gap : Nat} {f : Name → Parser α} {message : String}
    (hname : c.current.kind = .name) (hlast : S.Past 0 c.advance)
    (hf : ∀ id c', S.Past 0 c' → Strays S gap c' (f id)) :
    Strays S gap c (name message >>= f) := by
  obtain ⟨text, htext⟩ := exists_lexeme_eq_name hname
  apply Strays.bind
  · rw [name, Strays, ends_current, htext]
    exact hlast
  · exact hf

theorem strays_location (hname : c.current.kind = .name) (hlast : S.Past 0 c.advance) :
    Strays S 0 c (location limits) := by
  apply strays_name_bind hname hlast
  intro id c' hc'
  have hagree : Agree S 0 c' c' (measured fun steps => fields limits steps (.name id))
      (measured fun steps => fields limits steps (.name id)) :=
    .measured fun _ _ => agree_fields (Built.alike_refl hc'.pairs (Loc.name id))
  exact hagree.past hc'

def assignedIn (limits : Limits) (steps : Nat) (loc : Loc) : Parser Expr := do
  if ← at? (.symbol .assign) then
    return (← assignmentIn limits steps loc).toExpr
  else
    return .loc loc

def callBehind (limits : Limits) (steps : Nat) (callee : Name) : Parser Call := do
  let paren ← expect (.symbol .leftParen) "Expected '(' after function name"
  let args ← if ← at? (.symbol .rightParen) then pure [] else argumentsIn limits steps
  let _ ← expect (.symbol .rightParen) "Expected ')' after call"
  let whole : Call := ⟨callee, args, paren.position⟩
  checkHeight limits whole.toExpr.height paren
  return whole

theorem callIn_succ (limits : Limits) (steps : Nat) :
    callIn limits (steps + 1) = name "Expected function name" >>= callBehind limits steps := by
  rw [callIn]
  rfl

/-- What is read with one number of steps is like what is read with any other, and a call whose name
is the last one of the paired tokens goes past them. -/
structure ExprAgrees (S : Overlap) (limits : Limits) (m : Nat) : Prop where
  binary : ∀ n minimum c d,
    Agree S 0 c d (binaryIn limits m minimum) (binaryIn limits n minimum)
  operators : ∀ n minimum (left left' : Expr) c d, Built.Alike S.Pairs left left' →
    Agree S 0 c d (operatorsIn limits m minimum left) (operatorsIn limits n minimum left')
  unary : ∀ n c d, Agree S 0 c d (unaryIn limits m) (unaryIn limits n)
  primary : ∀ n c d, Agree S 0 c d (primaryIn limits m) (primaryIn limits n)
  assignment : ∀ n (lhs lhs' : Loc) c d, Built.Alike S.Pairs lhs lhs' →
    Agree S 0 c d (assignmentIn limits m lhs) (assignmentIn limits n lhs')
  call : ∀ n c d, Agree S 0 c d (callIn limits m) (callIn limits n)
  arguments : ∀ n c d, Agree S 0 c d (argumentsIn limits m) (argumentsIn limits n)
  strays : ∀ c : Cursor, c.current.kind = .name → S.Past 0 c.advance →
    Strays S 0 c (callIn limits m)

namespace ExprAgrees

theorem zero : ExprAgrees S limits 0 where
  binary _ _ _ _ := .exhausted
  operators _ _ _ _ _ _ _ := .exhausted
  unary _ _ _ := .exhausted
  primary _ _ _ := .exhausted
  assignment _ _ _ _ _ _ := .exhausted
  call _ _ _ := .exhausted
  arguments _ _ _ := .exhausted
  strays _ _ _ := .inr rfl

variable (h : ExprAgrees S limits m)

include h

theorem agree_binary {minimum : Int} :
    Agree S 0 c d (binaryIn limits (m + 1) minimum) (binaryIn limits (n + 1) minimum) :=
  .nested (.bind (h.unary n _ _) fun _ _ _ _ hleft => h.operators n minimum _ _ _ _ hleft)

theorem agree_operators {minimum : Int} {left left' : Expr}
    (hleft : Built.Alike S.Pairs left left') :
    Agree S 0 c d (operatorsIn limits (m + 1) minimum left)
      (operatorsIn limits (n + 1) minimum left') := by
  apply Agree.current
  intro u hu
  rw [← S.kind_eq hu]
  split
  · exact .pure hleft
  split
  · exact .pure hleft
  · rename_i op hop _
    apply Agree.advance (by simp [BinaryOp.eq_symbol_of_ofKind? hop])
    intro c₁ d₁
    apply Agree.bind (h.binary n _ c₁ d₁)
    intro right right' c₂ d₂ hright
    have hwhole : Built.Alike S.Pairs (Expr.binary op left right c.current.position)
        (Expr.binary op left' right' u.position) := .binary op hleft hright (S.placed hu)
    exact .checkHeight hu (Expr.height_eq_of_alike hwhole) (h.operators n _ _ _ c₂ d₂ hwhole)

theorem agree_unary : Agree S 0 c d (unaryIn limits (m + 1)) (unaryIn limits (n + 1)) := by
  apply Agree.current
  intro u hu
  rw [← S.kind_eq hu]
  split
  · exact h.primary n c d
  · rename_i op hop
    apply Agree.advance (by simp [UnaryOp.eq_symbol_of_ofKind? hop])
    intro c₁ d₁
    apply Agree.bind (.nested (h.unary n _ _))
    intro operand operand' c₂ d₂ hoperand
    have hwhole : Built.Alike S.Pairs (Expr.unary op operand c.current.position)
        (Expr.unary op operand' u.position) := .unary op hoperand (S.placed hu)
    exact .checkHeight hu (Expr.height_eq_of_alike hwhole) (.pure hwhole)

theorem agree_assignment {lhs lhs' : Loc} (hlhs : Built.Alike S.Pairs lhs lhs') :
    Agree S 0 c d (assignmentIn limits (m + 1) lhs) (assignmentIn limits (n + 1) lhs') := by
  apply Agree.expect (by simp)
  intro t u c₁ d₁ htu
  apply Agree.bind (h.binary n _ c₁ d₁)
  intro rhs rhs' c₂ d₂ hrhs
  have hwhole : Built.Alike S.Pairs (⟨lhs, rhs, t.position⟩ : Assignment)
      ⟨lhs', rhs', u.position⟩ := .assign hlhs hrhs (S.placed htu)
  exact .checkHeight htu (Expr.height_eq_of_alike hwhole) (.pure hwhole)

theorem agree_arguments :
    Agree S 0 c d (argumentsIn limits (m + 1)) (argumentsIn limits (n + 1)) := by
  apply Agree.bind (h.binary n _ c d)
  intro first first' c₁ d₁ hfirst
  apply Agree.accept (by simp)
  · intro c₂ d₂
    exact .yield (h.arguments n c₂ d₂) fun _ _ hmore => .cons hfirst hmore
  · exact .pure (.cons hfirst .nil)

theorem agree_callBehind {callee callee' : Name} (hcallee : Built.Alike S.Pairs callee callee') :
    Agree S 0 c d (callBehind limits m callee) (callBehind limits n callee') := by
  apply Agree.expect (by simp)
  intro t u c₁ d₁ htu
  have hclose : ∀ (args args' : List Expr) (c₂ d₂ : Cursor), Built.Alike S.Pairs args args' →
      Agree S 0 c₂ d₂ (do
        let _ ← expect (.symbol .rightParen) "Expected ')' after call"
        let whole : Call := ⟨callee, args, t.position⟩
        checkHeight limits whole.toExpr.height t
        return whole) (do
        let _ ← expect (.symbol .rightParen) "Expected ')' after call"
        let whole : Call := ⟨callee', args', u.position⟩
        checkHeight limits whole.toExpr.height u
        return whole) := by
    intro args args' c₂ d₂ hargs
    have hwhole : Built.Alike S.Pairs (⟨callee, args, t.position⟩ : Call)
        ⟨callee', args', u.position⟩ :=
      .call hcallee (.list _ (Expr.alike_toNodes hargs) (S.placed htu)) (Name.placed hcallee)
    apply Agree.expect (by simp)
    intro _ _ c₃ d₃ _
    exact .checkHeight htu (Expr.height_eq_of_alike hwhole) (.pure hwhole)
  apply Agree.at?
  split
  · exact .bind (.pure List.Forall₂.nil) hclose
  · exact .bind (h.arguments n c₁ d₁) hclose

theorem agree_call : Agree S 0 c d (callIn limits (m + 1)) (callIn limits (n + 1)) := by
  rw [callIn_succ, callIn_succ]
  exact .bind (agree_name _) fun _ _ _ _ hcallee => h.agree_callBehind hcallee

theorem agree_assigned {loc loc' : Loc} (hloc : Built.Alike S.Pairs loc loc') :
    Agree S 0 c d (assignedIn limits m loc) (assignedIn limits n loc') := by
  apply Agree.at?
  split
  · exact .yield (h.assignment n _ _ c d hloc) fun _ _ ha => ha
  · exact .pure hloc

theorem agree_located : Agree S 0 c d (locatedIn limits m) (locatedIn limits n) :=
  .bind agree_location fun _ _ _ _ hloc => h.agree_assigned hloc

theorem strays_call (hname : c.current.kind = .name) (hlast : S.Past 0 c.advance) :
    Strays S 0 c (callIn limits (m + 1)) := by
  rw [callIn_succ]
  apply strays_name_bind hname hlast
  intro callee c' hc'
  exact (h.agree_callBehind (n := 0) (d := c') (Built.alike_refl hc'.pairs callee)).past hc'

theorem strays_located (hname : c.current.kind = .name) (hlast : S.Past 0 c.advance) :
    Strays S 0 c (locatedIn limits m) := by
  apply Strays.bind (strays_location hname hlast)
  intro loc c' hc'
  exact (h.agree_assigned (n := 0) (d := c') (Built.alike_refl hc'.pairs loc)).past hc'

/-- A name is read as a call or as a location, depending on what stands behind it. -/
theorem agree_named (hname : c.current.kind = .name) :
    Agree S 0 c d (do
      if (← get).kindAhead? 1 = some (.symbol .leftParen) then
        return (← callIn limits m).toExpr
      else
        locatedIn limits m) (do
      if (← get).kindAhead? 1 = some (.symbol .leftParen) then
        return (← callIn limits n).toExpr
      else
        locatedIn limits n) := by
  have hcall : Agree S 0 c d (do return (← callIn limits m).toExpr)
      (do return (← callIn limits n).toExpr) := .yield (h.call n c d) fun _ _ ha => ha
  apply Agree.get
  apply Agree.ahead
  · exact hcall
  · exact h.agree_located
  · intro hcd hlast
    have hpast := hcd.past_advance (by simp [hname]) hlast
    constructor
    · apply Agree.of_strays hcall.past
      exact fun _ => ends_bind.2 (h.strays c hname hpast)
    · apply Agree.of_strays (h.agree_located (n := n) (d := d)).past
      exact fun _ => h.strays_located hname hpast

theorem agree_primary : Agree S 0 c d (primaryIn limits (m + 1)) (primaryIn limits (n + 1)) := by
  apply Agree.current
  intro u hu
  have hlike := S.like hu
  have leaf : ∀ e e' : Expr, c.current.kind ≠ .endOfInput → Built.Alike S.Pairs e e' →
      Agree S 0 c d (do advance; return e) (do advance; return e') :=
    fun e e' hk he => .advance hk fun _ _ => .pure he
  generalize ht : c.current = t at hu hlike
  obtain ⟨l, p⟩ := t
  have hkind : c.current.kind = l.kind := by rw [ht]; rfl
  obtain ⟨l', p'⟩ := u
  cases hlike with
  | number value value' => exact leaf _ _ (by simp [hkind, Lexeme.kind]) (.number hu)
  | string raw raw' => exact leaf _ _ (by simp [hkind, Lexeme.kind]) (.string hu)
  | name text text' => exact h.agree_named (by rw [ht]; rfl)
  | keyword word text text' =>
      cases word with
      | trueWord => exact leaf _ _ (by simp [hkind, Lexeme.kind]) (.truth true (S.placed hu))
      | falseWord => exact leaf _ _ (by simp [hkind, Lexeme.kind]) (.truth false (S.placed hu))
      | _ => exact .fail
  | symbol sign text text' =>
      cases sign with
      | leftParen =>
          apply Agree.advance (by simp [hkind, Lexeme.kind])
          intro c₁ d₁
          apply Agree.bind (h.binary n _ c₁ d₁)
          intro e e' c₂ d₂ he
          apply Agree.expect (by simp)
          intro _ _ c₃ d₃ _
          exact .pure he
      | _ => exact .fail
  | endOfInput => exact .fail

theorem succ : ExprAgrees S limits (m + 1) where
  binary n minimum _ _ :=
    .of_steps n (q := fun n => binaryIn limits n minimum) rfl fun _ => h.agree_binary
  operators n minimum _ left' _ _ hleft :=
    .of_steps n (q := fun n => operatorsIn limits n minimum left') rfl fun _ =>
      h.agree_operators hleft
  unary n _ _ := .of_steps n rfl fun _ => h.agree_unary
  primary n _ _ := .of_steps n rfl fun _ => h.agree_primary
  assignment n _ lhs' _ _ hlhs :=
    .of_steps n (q := fun n => assignmentIn limits n lhs') rfl fun _ => h.agree_assignment hlhs
  call n _ _ := .of_steps n rfl fun _ => h.agree_call
  arguments n _ _ := .of_steps n rfl fun _ => h.agree_arguments
  strays _ hname hlast := h.strays_call hname hlast

end ExprAgrees

theorem exprAgrees (S : Overlap) (limits : Limits) (m : Nat) : ExprAgrees S limits m := by
  induction m with
  | zero => exact ExprAgrees.zero
  | succ m ih => exact ih.succ

end Parser

end Cmm

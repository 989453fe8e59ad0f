import Cmm.Proofs.Expr.Soundness
import Cmm.Proofs.Parser.Truncated

/-!
# Truncated expressions

The part of an expression that is read from truncated tokens is no higher than the whole.
-/

namespace Cmm

namespace Parser

variable {limits : Limits} {m n : Nat} {c d : Cursor}

/-! ## What is built on -/

theorem height_le_fields {l l' : Loc} (h : fields limits n l c = .ok l' d) :
    l.height ≤ l'.height := by
  induction n generalizing c l with
  | zero => cases h
  | succ n ih =>
      obtain ⟨dot, c₁, -, h⟩ := exists_of_bind_ok h
      obtain ⟨b, c₂, -, h⟩ := exists_of_bind_ok h
      cases b with
      | false =>
          cases h
          exact Nat.le_refl _
      | true =>
          obtain ⟨id, c₃, -, h⟩ := exists_of_bind_ok h
          obtain ⟨_, c₄, -, h⟩ := exists_of_bind_ok h
          have hle := ih h
          simp only [Loc.height] at hle
          omega

theorem height_le_operatorsIn {minimum : Int} {left e : Expr}
    (h : operatorsIn limits n minimum left c = .ok e d) : left.height ≤ e.height := by
  induction n generalizing c left with
  | zero => cases h
  | succ n ih =>
      obtain ⟨t, c₁, -, h⟩ := exists_of_bind_ok h
      cases hop : BinaryOp.ofKind? t.kind with
      | none =>
          simp only [hop] at h
          cases h
          exact Nat.le_refl _
      | some op =>
          simp only [hop] at h
          split at h
          · cases h
            exact Nat.le_refl _
          · obtain ⟨_, c₂, -, h⟩ := exists_of_bind_ok h
            obtain ⟨right, c₃, -, h⟩ := exists_of_bind_ok h
            obtain ⟨_, c₄, -, h⟩ := exists_of_bind_ok h
            have hle := ih h
            simp only [Expr.height] at hle
            omega

theorem height_lt_assignmentIn {lhs : Loc} {a : Assignment}
    (h : assignmentIn limits n lhs c = .ok a d) : lhs.height < a.toExpr.height := by
  cases n with
  | zero => cases h
  | succ n =>
      obtain ⟨t, c₁, -, h⟩ := exists_of_bind_ok h
      obtain ⟨rhs, c₂, -, h⟩ := exists_of_bind_ok h
      obtain ⟨_, c₃, -, h⟩ := exists_of_bind_ok h
      cases h
      simp only [Assignment.toExpr, Expr.height]
      omega

/-! ## At the end of the input -/

theorem lexeme_eq_endOfInput {t : Token} (h : t.kind = .endOfInput) :
    t.lexeme = .endOfInput := by
  unfold Token.kind at h
  cases hl : t.lexeme <;> simp_all [Lexeme.kind]

theorem exists_lexeme_eq_name {t : Token} (h : t.kind = .name) :
    ∃ text, t.lexeme = .name text := by
  unfold Token.kind at h
  cases hl : t.lexeme <;> simp_all [Lexeme.kind]

theorem name_failsAtEnd (message : String) : FailsAtEnd (name message) := by
  intro c hc
  rw [name, ends_current, lexeme_eq_endOfInput hc]
  exact .inl rfl

theorem primaryIn_failsAtEnd : FailsAtEnd (primaryIn limits n) := by
  intro c hc
  cases n with
  | zero => exact .inl rfl
  | succ n =>
      unfold primaryIn
      rw [ends_current, lexeme_eq_endOfInput hc]
      exact .inl rfl

theorem unaryIn_failsAtEnd : FailsAtEnd (unaryIn limits n) := by
  intro c hc
  cases n with
  | zero => exact .inl rfl
  | succ n =>
      unfold unaryIn
      rw [ends_current, hc]
      exact primaryIn_failsAtEnd c hc

theorem binaryIn_failsAtEnd {minimum : Int} : FailsAtEnd (binaryIn limits n minimum) := by
  cases n with
  | zero => exact .exhausted
  | succ n => exact .nested (.bind unaryIn_failsAtEnd)

theorem argumentsIn_failsAtEnd : FailsAtEnd (argumentsIn limits n) := by
  cases n with
  | zero => exact .exhausted
  | succ n => exact .bind binaryIn_failsAtEnd

/-! ## Names and locations -/

theorem follows_name (message : String) :
    Follows c d (name message) (name message) fun _ _ => True := by
  refine .of_failsAtEnd (name_failsAtEnd message) fun hk hsame => .current ?_
  rw [hsame] at hk ⊢
  split
  · exact .advance (hsame ▸ hk) fun _ _ => .pure trivial
  · exact .fail

theorem follows_fields {l l' : Loc} (h : l.height ≤ l'.height) :
    Follows c d (fields limits m l) (fields limits n l') fun a b => a.height ≤ b.height := by
  induction n generalizing c d m l l' with
  | zero => exact .exhausted_right
  | succ n ih =>
      cases m with
      | zero => exact .exhausted
      | succ m =>
          refine .current (.accept (by simp) (fun c' d' => ?_) (.pure h) fun hc => ?_)
          · refine .bind (follows_name _) fun _ _ c' d' _ => .checkHeight ?_ (ih ?_) <;>
              simp only [Loc.height] <;> omega
          · refine .pure_end hc fun b d' hq => ?_
            obtain ⟨id, c₃, -, hq⟩ := exists_of_bind_ok hq
            obtain ⟨_, c₄, -, hq⟩ := exists_of_bind_ok hq
            have hle := height_le_fields hq
            simp only [Loc.height] at hle
            omega

theorem follows_location :
    Follows c d (location limits) (location limits) fun a b => a.height ≤ b.height :=
  .bind (follows_name _) fun _ _ _ _ _ => .measured fun _ _ => follows_fields (Nat.le_refl 1)

theorem location_of_end (limits : Limits) {text : String} (hname : c.current.lexeme = .name text)
    (hend : c.kindAhead? 1 = some .endOfInput) :
    ∃ id, location limits c = .ok (.name id) c.advance ∧
      c.advance.current.kind = .endOfInput := by
  have hadvance : c.advance.current.kind = .endOfInput := by
    unfold Cursor.advance
    cases hafter : c.after <;> simp_all [Cursor.kindAhead?]
  have hid : name "Expected identifier" c = .ok ⟨text, c.current.position⟩ c.advance := by
    rw [name, bind_of_ok (show current c = .ok c.current c from rfl), hname]
    rfl
  refine ⟨⟨text, c.current.position⟩, ?_, hadvance⟩
  rw [location, bind_of_ok hid]
  change (accept (.symbol .dot) >>= _) c.advance = _
  rw [bind_of_ok (accept_of_ne (by simp [hadvance]))]
  rfl

/-! ## Expressions -/

def locatedIn (limits : Limits) (steps : Nat) : Parser Expr := do
  let loc ← location limits
  if ← at? (.symbol .assign) then
    return (← assignmentIn limits steps loc).toExpr
  else
    return .loc loc

/-- What is read from truncated tokens with one number of steps is no higher than what is read from
all tokens with another. -/
structure ExprFollows (limits : Limits) (n : Nat) : Prop where
  binary : ∀ m minimum c d, Follows c d (binaryIn limits m minimum) (binaryIn limits n minimum)
    fun a b => a.height ≤ b.height
  operators : ∀ m minimum (left left' : Expr) c d, left.height ≤ left'.height →
    Follows c d (operatorsIn limits m minimum left) (operatorsIn limits n minimum left')
      fun a b => a.height ≤ b.height
  unary : ∀ m c d, Follows c d (unaryIn limits m) (unaryIn limits n)
    fun a b => a.height ≤ b.height
  primary : ∀ m c d, Follows c d (primaryIn limits m) (primaryIn limits n)
    fun a b => a.height ≤ b.height
  assignment : ∀ m (lhs lhs' : Loc) c d, lhs.height ≤ lhs'.height →
    Follows c d (assignmentIn limits m lhs) (assignmentIn limits n lhs')
      fun a b => a.toExpr.height ≤ b.toExpr.height
  call : ∀ m c d, Follows c d (callIn limits m) (callIn limits n)
    fun a b => a.toExpr.height ≤ b.toExpr.height
  arguments : ∀ m c d, Follows c d (argumentsIn limits m) (argumentsIn limits n)
    fun a b => Expr.greatestHeight a ≤ Expr.greatestHeight b

namespace ExprFollows

theorem zero : ExprFollows limits 0 where
  binary _ _ _ _ := .exhausted_right
  operators _ _ _ _ _ _ _ := .exhausted_right
  unary _ _ _ := .exhausted_right
  primary _ _ _ := .exhausted_right
  assignment _ _ _ _ _ _ := .exhausted_right
  call _ _ _ := .exhausted_right
  arguments _ _ _ := .exhausted_right

variable (h : ExprFollows limits n)

include h

theorem follows_operators {minimum : Int} {left left' : Expr} (hle : left.height ≤ left'.height) :
    Follows c d (operatorsIn limits (m + 1) minimum left)
      (operatorsIn limits (n + 1) minimum left') fun a b => a.height ≤ b.height := by
  by_cases hc : c.current.kind = .endOfInput
  · have hp : operatorsIn limits (m + 1) minimum left c = .ok left c := by
      rw [operatorsIn, bind_of_ok (show current c = .ok c.current c from rfl), hc]
      rfl
    refine .of_end (fun hc => ?_) fun hc' => absurd hc hc'
    exact ends_of_ok hp ⟨hc, fun b d' hq => Nat.le_trans hle (height_le_operatorsIn hq)⟩
  · refine .of_end (fun hc' => absurd hc' hc) fun _ hsame => .current ?_
    rw [hsame]
    split
    · exact .pure hle
    split
    · exact .pure hle
    · refine .advance hc fun c₁ d₁ => .bind (h.binary _ _ c₁ d₁) fun right right' c₂ d₂ hright => ?_
      refine .checkHeight ?_ (h.operators _ _ _ _ c₂ d₂ ?_) <;>
        simp only [Expr.height] <;> omega

theorem follows_unary : Follows c d (unaryIn limits (m + 1)) (unaryIn limits (n + 1))
    fun a b => a.height ≤ b.height := by
  refine .of_failsAtEnd unaryIn_failsAtEnd fun hc hsame => .current ?_
  rw [hsame]
  split
  · exact h.primary _ c d
  · refine .advance hc fun c₁ d₁ => .bind (.nested (h.unary _ _ _)) fun a b c₂ d₂ hab => ?_
    refine .checkHeight ?_ (.pure ?_) <;> simp only [Expr.height] <;> omega

theorem follows_assignment {lhs lhs' : Loc} (hle : lhs.height ≤ lhs'.height) :
    Follows c d (assignmentIn limits (m + 1) lhs) (assignmentIn limits (n + 1) lhs')
      fun a b => a.toExpr.height ≤ b.toExpr.height := by
  refine .expect (by simp) fun t u c₁ d₁ => .bind (h.binary _ _ c₁ d₁) fun a b c₂ d₂ hab => ?_
  refine .checkHeight ?_ (.pure ?_) <;> simp only [Assignment.toExpr, Expr.height] <;> omega

theorem follows_arguments : Follows c d (argumentsIn limits (m + 1)) (argumentsIn limits (n + 1))
    fun a b => Expr.greatestHeight a ≤ Expr.greatestHeight b := by
  refine .bind (h.binary _ _ c d) fun a b c₁ d₁ hab => .accept (by simp) (fun c₂ d₂ => ?_) ?_ ?_
  · refine .bind (h.arguments _ c₂ d₂) fun as bs c₃ d₃ hle => .pure ?_
    simp only [Expr.greatestHeight]
    omega
  · refine .pure ?_
    simp only [Expr.greatestHeight]
    omega
  · intro hc
    refine .pure_end hc fun bs d' hq => ?_
    obtain ⟨bs, d₂, -, hq⟩ := exists_of_bind_ok hq
    cases hq
    simp only [Expr.greatestHeight]
    omega

theorem follows_call : Follows c d (callIn limits (m + 1)) (callIn limits (n + 1))
    fun a b => a.toExpr.height ≤ b.toExpr.height := by
  have hrest : ∀ (callee callee' : Name) (t u : Token) (as bs : List Expr) (c d : Cursor),
      Expr.greatestHeight as ≤ Expr.greatestHeight bs →
      Follows c d (do
        let _ ← expect (.symbol .rightParen) "Expected ')' after call"
        let whole : Call := ⟨callee, as, t.position⟩
        checkHeight limits whole.toExpr.height t
        return whole) (do
        let _ ← expect (.symbol .rightParen) "Expected ')' after call"
        let whole : Call := ⟨callee', bs, u.position⟩
        checkHeight limits whole.toExpr.height u
        return whole) fun a b => a.toExpr.height ≤ b.toExpr.height := by
    intro callee callee' t u as bs c d hle
    refine .expect (by simp) fun _ _ c₁ d₁ => .checkHeight ?_ (.pure ?_) <;>
      simp only [Call.toExpr, Expr.height] <;> omega
  refine .bind (follows_name _) fun callee callee' c₁ d₁ _ => ?_
  refine .expect (by simp) fun t u c₂ d₂ => .at? ?_
  refine .of_end (fun hc => ?_) fun _ hsame => ?_
  · rw [if_neg (by simp [hc])]
    exact (argumentsIn_failsAtEnd.bind c₂ hc).of_fails
  · rw [hsame]
    split
    · exact .bind (.pure (Nat.le_refl _)) fun as bs c₃ d₃ hle => hrest _ _ _ _ _ _ c₃ d₃ hle
    · exact .bind (h.arguments _ c₂ d₂) fun as bs c₃ d₃ hle => hrest _ _ _ _ _ _ c₃ d₃ hle

theorem follows_located : Follows c d (locatedIn limits m) (locatedIn limits n)
    fun a b => a.height ≤ b.height := by
  refine .bind follows_location fun l l' c₁ d₁ hle => .at? (.of_end (fun hc => ?_) fun _ hsame => ?_)
  · rw [if_neg (by simp [hc])]
    refine ⟨hc, fun b d' hq => ?_⟩
    split at hq
    · obtain ⟨a, d₂, ha, hq⟩ := exists_of_bind_ok hq
      cases hq
      have hlt := height_lt_assignmentIn ha
      simp only [Expr.height]
      omega
    · cases hq
      exact hle
  · rw [hsame]
    split
    · exact .bind (h.assignment _ _ _ c₁ d₁ hle) fun a b c₂ d₂ hab => .pure hab
    · exact .pure hle

theorem follows_primary : Follows c d (primaryIn limits (m + 1)) (primaryIn limits (n + 1))
    fun a b => a.height ≤ b.height := by
  refine .of_failsAtEnd primaryIn_failsAtEnd fun hc hsame => .current ?_
  have leaf : ∀ e : Expr, Follows c d (do advance; return e) (do advance; return e)
      fun a b => a.height ≤ b.height :=
    fun e => .advance hc fun _ _ => .pure (Nat.le_refl _)
  rw [hsame]
  split
  · exact leaf _
  · exact leaf _
  · exact leaf _
  · exact leaf _
  · refine .advance hc fun c₁ d₁ => .bind (h.binary _ _ c₁ d₁) fun a b c₂ d₂ hab => ?_
    exact .expect (by simp) fun _ _ _ _ => .pure hab
  · rename_i text hl
    refine .get (.ahead (by simp) hc ?_ (h.follows_located) ?_ ?_)
    · exact .bind (h.call _ c d) fun a b c₁ d₁ hab => .pure hab
    · intro j hj hj' hkj
      obtain rfl : j = 1 := by omega
      obtain ⟨id, hloc, hend⟩ := location_of_end limits (hsame ▸ hl) hkj
      have hp : locatedIn limits m c = .ok (.loc (.name id)) c.advance := by
        rw [locatedIn, bind_of_ok hloc]
        change (if decide (_ = _) = true then _ else _ : Parser Expr) c.advance = _
        rw [if_neg (by simp [hend])]
        rfl
      intro _ b d' _
      exact ends_of_ok (p := locatedIn limits m) hp ⟨.inl hend, b.one_le_height⟩
    · intro j hj hj'
      omega
  · exact .fail

theorem succ : ExprFollows limits (n + 1) where
  binary m minimum c d := by
    cases m with
    | zero => exact .exhausted
    | succ m =>
        refine .nested (.bind (h.unary _ _ _) fun a b c₁ d₁ hab => ?_)
        exact h.operators _ _ _ _ c₁ d₁ hab
  operators m minimum left left' c d hle := by
    cases m with
    | zero => exact .exhausted
    | succ m => exact h.follows_operators hle
  unary m c d := by
    cases m with
    | zero => exact .exhausted
    | succ m => exact h.follows_unary
  primary m c d := by
    cases m with
    | zero => exact .exhausted
    | succ m => exact h.follows_primary
  assignment m lhs lhs' c d hle := by
    cases m with
    | zero => exact .exhausted
    | succ m => exact h.follows_assignment hle
  call m c d := by
    cases m with
    | zero => exact .exhausted
    | succ m => exact h.follows_call
  arguments m c d := by
    cases m with
    | zero => exact .exhausted
    | succ m => exact h.follows_arguments

end ExprFollows

theorem exprFollows (limits : Limits) (n : Nat) : ExprFollows limits n := by
  induction n with
  | zero => exact ExprFollows.zero
  | succ n ih => exact ih.succ

end Parser

end Cmm

import Cmm.Proofs.Expr.Compared
import Cmm.Proofs.Expr.Guided

/-!
# Fewer open levels

The levels of nesting that are open where an expression begins only count against the limit, and
the number of steps only has to be large enough.  So what is read as an expression at some depth is
read as the same expression at any smaller depth.
-/

namespace Cmm

namespace Cursor

def atDepth (c : Cursor) (depth : Nat) : Cursor := { c with depth := depth }

theorem atDepth_self (c : Cursor) : c.atDepth c.depth = c := rfl

theorem deeper_atDepth (c : Cursor) (k : Nat) : (c.atDepth k).deeper = c.deeper.atDepth (k + 1) :=
  rfl

theorem advance_atDepth (c : Cursor) (k : Nat) : (c.atDepth k).advance = c.advance.atDepth k := by
  unfold advance
  cases hafter : c.after with
  | nil => simp [atDepth, hafter]
  | cons t rest => simp [atDepth, hafter]

end Cursor

namespace Parser

/-! ## Parsers at a smaller depth -/

/-- What `p` gives at some depth, `q` gives at any smaller one, and at the same depth `q` fails as `p`
does, unless that is for want of steps. -/
def Carries {α : Type} (p q : Parser α) : Prop :=
  ∀ (c : Cursor) (k : Nat), k ≤ c.depth → p.Ends c
    (fun a d => d.depth = c.depth ∧ q (c.atDepth k) = .ok a (d.atDepth k))
    fun e d => e.cause = .exhausted ∨ k < c.depth ∨ q c = .error e d

namespace Carries

variable {α β : Type} {p q : Parser α} {f g : α → Parser β} {m n : Nat}

theorem of_ok (h : Carries p q) {c d : Cursor} {a : α} {k : Nat} (hrun : p c = .ok a d)
    (hk : k ≤ c.depth) : d.depth = c.depth ∧ q (c.atDepth k) = .ok a (d.atDepth k) := by
  have hend := h c k hk
  unfold Ends at hend
  rwa [hrun] at hend

theorem depth (h : Carries p q) {c d : Cursor} {a : α} (hrun : p c = .ok a d) :
    d.depth = c.depth :=
  (h.of_ok hrun (Nat.le_refl _)).1

theorem of_ok_self (h : Carries p q) {c d : Cursor} {a : α} (hrun : p c = .ok a d) :
    q c = .ok a d := by
  have hq := (h.of_ok hrun (Nat.le_refl _)).2
  rwa [Cursor.atDepth_self, ← h.depth hrun, Cursor.atDepth_self] at hq

theorem of_error (h : Carries p q) {c d : Cursor} {e : SyntaxError} (hrun : p c = .error e d)
    (he : e.cause ≠ .exhausted) : q c = .error e d := by
  have hend := h c c.depth (Nat.le_refl _)
  unfold Ends at hend
  rw [hrun] at hend
  rcases hend with hex | hlt | hq
  · exact absurd hex he
  · exact absurd hlt (Nat.lt_irrefl _)
  · exact hq

theorem bind (hp : Carries p q) (hf : ∀ a, Carries (f a) (g a)) :
    Carries (p >>= f) (q >>= g) := by
  intro c k hk
  refine ends_bind.2 ?_
  unfold Ends
  cases hrun : p c with
  | error e d =>
      have hend := hp c k hk
      unfold Ends at hend
      rw [hrun] at hend
      exact hend.imp id fun h => h.imp id bind_of_error
  | ok a d =>
      obtain ⟨hdepth, hq⟩ := hp.of_ok hrun hk
      have hend := hf a d k (hdepth ▸ hk)
      unfold Ends at hend
      dsimp only
      cases hrun' : f a d with
      | ok b d' =>
          rw [hrun'] at hend
          exact ⟨hend.1.trans hdepth, (bind_of_ok hq).trans hend.2⟩
      | error e d' =>
          by_cases hex : e.cause = .exhausted
          · exact .inl hex
          · have hq' := bind_of_ok (f := g) (hp.of_ok_self hrun)
            exact .inr (.inr (hq'.trans ((hf a).of_error hrun' hex)))

theorem pure (a : α) : Carries (pure a) (pure a) := fun _ _ _ => ⟨rfl, rfl⟩

theorem exhausted : Carries (exhausted : Parser α) q := fun _ _ _ => .inl rfl

theorem failAt (cause : SyntaxCause) (t : Token) :
    Carries (failAt cause t : Parser α) (failAt cause t) :=
  fun _ _ _ => .inr (.inr rfl)

theorem current : Carries current current := fun _ _ _ => ⟨rfl, rfl⟩

theorem advance : Carries advance advance := fun c k _ =>
  ⟨c.depth_advance, congrArg (EStateM.Result.ok ()) (c.advance_atDepth k)⟩

theorem get {f g : Cursor → Parser β} (hg : ∀ c k, g (c.atDepth k) = g c)
    (h : ∀ c, Carries (f c) (g c)) : Carries (get >>= f) (get >>= g) := by
  intro c k hk
  have hend := h c c k hk
  have hrun : (MonadState.get >>= g) (c.atDepth k) = g c (c.atDepth k) :=
    congrArg (fun p => p (c.atDepth k)) (hg c k)
  unfold Ends at hend ⊢
  rw [hrun]
  exact hend

theorem at? (kind : Kind) : Carries (at? kind) (at? kind) := fun _ _ _ => ⟨rfl, rfl⟩

theorem fail (message : String) : Carries (fail message : Parser α) (fail message) :=
  .bind .current fun t => .failAt _ t

theorem accept (kind : Kind) : Carries (accept kind) (accept kind) := by
  refine .bind (.at? kind) fun b => ?_
  cases b with
  | true => exact .bind .advance fun _ => .pure true
  | false => exact .pure false

theorem expect (kind : Kind) (message : String) :
    Carries (expect kind message) (expect kind message) := by
  refine .bind .current fun t => ?_
  split
  · exact .bind .advance fun _ => .pure t
  · exact .fail message

theorem checkHeight (limits : Limits) (height : Nat) (t : Token) :
    Carries (checkHeight limits height t) (checkHeight limits height t) := by
  unfold Parser.checkHeight
  split
  · exact .failAt _ t
  · exact .pure ()

theorem nested (limits : Limits) (h : Carries p q) :
    Carries (nested limits p) (nested limits q) := by
  intro c k hk
  unfold Ends
  by_cases hdeep : limits.depth < c.depth + 1
  · rw [nested_of_lt hdeep]
    exact .inr (.inr (nested_of_lt hdeep))
  · have hdeep' : ¬limits.depth < (c.atDepth k).depth + 1 := by
      change ¬limits.depth < (k : Int) + 1
      omega
    rw [nested_of_not_lt hdeep, nested_of_not_lt hdeep', nested_of_not_lt hdeep]
    cases hrun : p c.deeper with
    | ok a d =>
        obtain ⟨hdepth, hq⟩ := h.of_ok hrun (Nat.succ_le_succ hk)
        rw [Cursor.deeper_atDepth, hq]
        exact ⟨by rw [leave, hdepth]; rfl, rfl⟩
    | error e d =>
        by_cases hex : e.cause = .exhausted
        · exact .inl hex
        · rw [h.of_error hrun hex]
          exact .inr (.inr rfl)

theorem measured {p q : Nat → Parser α} (h : ∀ n, Carries (p n) (q n)) :
    Carries (measured p) (measured q) :=
  fun c k hk => h _ c k hk

theorem of_steps {q : Nat → Parser α} (hmn : m + 1 ≤ n)
    (h : ∀ n, m ≤ n → Carries p (q (n + 1))) : Carries p (q n) := by
  cases n with
  | zero => omega
  | succ n => exact h n (Nat.le_of_succ_le_succ hmn)

end Carries

/-! ## Expressions -/

section Names

variable (limits : Limits)

theorem carries_name (message : String) : Carries (name message) (name message) := by
  refine .bind .current fun t => ?_
  split
  · exact .bind .advance fun _ => .pure _
  · exact .fail message

theorem carries_fields (steps : Nat) (l : Loc) :
    Carries (fields limits steps l) (fields limits steps l) := by
  induction steps generalizing l with
  | zero => exact .exhausted
  | succ steps ih =>
      refine .bind .current fun dot => .bind (.accept _) fun b => ?_
      cases b with
      | true =>
          exact .bind (carries_name _) fun id => .bind (.checkHeight limits _ dot) fun _ => ih _
      | false => exact .pure l

theorem carries_location : Carries (location limits) (location limits) :=
  .bind (carries_name _) fun id => .measured fun steps => carries_fields limits steps (.name id)

end Names

structure ExprCarries (limits : Limits) (m : Nat) : Prop where
  binary : ∀ n minimum, m ≤ n → Carries (binaryIn limits m minimum) (binaryIn limits n minimum)
  operators : ∀ n minimum left, m ≤ n →
    Carries (operatorsIn limits m minimum left) (operatorsIn limits n minimum left)
  unary : ∀ n, m ≤ n → Carries (unaryIn limits m) (unaryIn limits n)
  primary : ∀ n, m ≤ n → Carries (primaryIn limits m) (primaryIn limits n)
  assignment : ∀ n lhs, m ≤ n → Carries (assignmentIn limits m lhs) (assignmentIn limits n lhs)
  call : ∀ n, m ≤ n → Carries (callIn limits m) (callIn limits n)
  arguments : ∀ n, m ≤ n → Carries (argumentsIn limits m) (argumentsIn limits n)

namespace ExprCarries

variable {limits : Limits} {m n : Nat}

theorem zero : ExprCarries limits 0 where
  binary _ _ _ := .exhausted
  operators _ _ _ _ := .exhausted
  unary _ _ := .exhausted
  primary _ _ := .exhausted
  assignment _ _ _ := .exhausted
  call _ _ := .exhausted
  arguments _ _ := .exhausted

variable (h : ExprCarries limits m)

include h

theorem carries_binary (hmn : m ≤ n) (minimum : Int) :
    Carries (binaryIn limits (m + 1) minimum) (binaryIn limits (n + 1) minimum) :=
  .nested limits (.bind (h.unary n hmn) fun left => h.operators n minimum left hmn)

theorem carries_operators (hmn : m ≤ n) (minimum : Int) (left : Expr) :
    Carries (operatorsIn limits (m + 1) minimum left) (operatorsIn limits (n + 1) minimum left) := by
  refine .bind .current fun t => ?_
  split
  · exact .pure left
  · split
    · exact .pure left
    · refine .bind .advance fun _ => .bind (h.binary n _ hmn) fun right => ?_
      exact .bind (.checkHeight limits _ t) fun _ => h.operators n minimum _ hmn

theorem carries_unary (hmn : m ≤ n) :
    Carries (unaryIn limits (m + 1)) (unaryIn limits (n + 1)) := by
  refine .bind .current fun t => ?_
  split
  · exact h.primary n hmn
  · refine .bind .advance fun _ => .bind (.nested limits (h.unary n hmn)) fun operand => ?_
    exact .bind (.checkHeight limits _ t) fun _ => .pure _

theorem carries_named (hmn : m ≤ n) :
    Carries (do
      if (← get).kindAhead? 1 = some (.symbol .leftParen) then
        return (← callIn limits m).toExpr
      else
        locatedIn limits m) (do
      if (← get).kindAhead? 1 = some (.symbol .leftParen) then
        return (← callIn limits n).toExpr
      else
        locatedIn limits n) := by
  refine .get (fun _ _ => rfl) fun c => ?_
  split
  · exact .bind (h.call n hmn) fun call => .pure _
  · refine .bind (carries_location limits) fun loc => .bind (.at? _) fun b => ?_
    cases b with
    | true => exact .bind (h.assignment n loc hmn) fun assignment => .pure _
    | false => exact .pure _

theorem carries_primary (hmn : m ≤ n) :
    Carries (primaryIn limits (m + 1)) (primaryIn limits (n + 1)) := by
  have leaf : ∀ e : Expr, Carries (do Parser.advance; return e) (do Parser.advance; return e) :=
    fun e => .bind .advance fun _ => .pure e
  refine .bind .current fun t => ?_
  obtain ⟨lexeme, p⟩ := t
  cases lexeme with
  | number value => exact leaf _
  | string raw => exact leaf _
  | name text => exact h.carries_named hmn
  | keyword word text =>
      cases word with
      | trueWord => exact leaf _
      | falseWord => exact leaf _
      | _ => exact .fail _
  | symbol sign text =>
      cases sign with
      | leftParen =>
          refine .bind .advance fun _ => .bind (h.binary n 1 hmn) fun e => ?_
          exact .bind (.expect _ _) fun _ => .pure e
      | _ => exact .fail _
  | endOfInput => exact .fail _

theorem carries_assignment (hmn : m ≤ n) (lhs : Loc) :
    Carries (assignmentIn limits (m + 1) lhs) (assignmentIn limits (n + 1) lhs) := by
  refine .bind (.expect _ _) fun sign => .bind (h.binary n 1 hmn) fun rhs => ?_
  exact .bind (.checkHeight limits _ sign) fun _ => .pure _

theorem carries_call (hmn : m ≤ n) :
    Carries (callIn limits (m + 1)) (callIn limits (n + 1)) := by
  refine .bind (carries_name _) fun callee => .bind (.expect _ _) fun paren => ?_
  refine .bind (.at? _) fun b => ?_
  have hclose : ∀ args : List Expr, Carries (do
        let _ ← expect (.symbol .rightParen) "Expected ')' after call"
        let whole : Call := ⟨callee, args, paren.position⟩
        checkHeight limits whole.toExpr.height paren
        return whole) (do
        let _ ← expect (.symbol .rightParen) "Expected ')' after call"
        let whole : Call := ⟨callee, args, paren.position⟩
        checkHeight limits whole.toExpr.height paren
        return whole) :=
    fun args => .bind (.expect _ _) fun _ => .bind (.checkHeight limits _ paren) fun _ => .pure _
  cases b with
  | true => exact .bind (.pure []) hclose
  | false => exact .bind (h.arguments n hmn) hclose

theorem carries_arguments (hmn : m ≤ n) :
    Carries (argumentsIn limits (m + 1)) (argumentsIn limits (n + 1)) := by
  refine .bind (h.binary n 1 hmn) fun first => .bind (.accept _) fun b => ?_
  cases b with
  | true => exact .bind (h.arguments n hmn) fun more => .pure _
  | false => exact .pure [first]

theorem succ : ExprCarries limits (m + 1) where
  binary _ minimum hmn := .of_steps (q := fun n => binaryIn limits n minimum) hmn fun _ hmn =>
    h.carries_binary hmn minimum
  operators _ minimum left hmn :=
    .of_steps (q := fun n => operatorsIn limits n minimum left) hmn fun _ hmn =>
      h.carries_operators hmn minimum left
  unary _ hmn := .of_steps hmn fun _ hmn => h.carries_unary hmn
  primary _ hmn := .of_steps hmn fun _ hmn => h.carries_primary hmn
  assignment _ lhs hmn := .of_steps (q := fun n => assignmentIn limits n lhs) hmn fun _ hmn =>
    h.carries_assignment hmn lhs
  call _ hmn := .of_steps hmn fun _ hmn => h.carries_call hmn
  arguments _ hmn := .of_steps hmn fun _ hmn => h.carries_arguments hmn

end ExprCarries

theorem exprCarries (limits : Limits) (m : Nat) : ExprCarries limits m := by
  induction m with
  | zero => exact .zero
  | succ m ih => exact ih.succ

/-- What is read as an operand with some number of steps is what is read with enough of them, also at
any smaller depth. -/
theorem unary_atDepth {limits : Limits} {c d : Cursor} {e : Expr} {steps k : Nat} (hc : c.Closed)
    (hrun : unaryIn limits steps c = .ok e d) (hk : k ≤ c.depth) :
    unary limits (c.atDepth k) = .ok e (d.atDepth k) := by
  have hcarries : ∀ m n, m ≤ n → Carries (unaryIn limits m) (unaryIn limits n) :=
    fun m n hmn => (exprCarries limits m).unary n hmn
  have hsame : unary limits c = .ok e d := by
    rcases Nat.le_total steps (4 * (c.after.length + 1) + 8) with hle | hle
    · exact (hcarries _ _ hle).of_ok_self hrun
    -- with fewer steps than were taken there still are enough, so the outcome is the same one
    · cases henough : unary limits c with
      | ok e' d' => exact ((hcarries _ _ hle).of_ok_self henough).symm.trans hrun
      | error e' d' =>
          obtain ⟨_, _, -, hstop, -⟩ := (guided_operand limits c hc).of_error henough
          have hmore := (hcarries _ _ hle).of_error henough hstop.ne_exhausted
          cases hmore.symm.trans hrun
  exact ((hcarries _ _ (Nat.le_refl _)).of_ok hsame hk).2

end Parser

end Cmm

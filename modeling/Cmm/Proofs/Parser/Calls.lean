import Cmm.Parser.Calls
import Cmm.Proofs.Parser.Outcome

/-!
# Counting calls

What is read with a count of the calls is read as without it.  The rules bound the calls that are
open at once by a number that depends on the open levels of nesting only.
-/

namespace Cmm

theorem Cursor.Closed.advance {c : Cursor} (hc : c.Closed) : c.advance.Closed := by
  cases hafter : c.after with
  | nil => simpa [Cursor.advance, hafter] using hc
  | cons t rest =>
      have hkinds := c.kinds_eq_cons
      rw [hafter] at hkinds
      rw [Closed, hkinds, List.map_cons, List.getLast?_cons_cons] at hc
      simpa [Closed, kinds, ahead_advance (hafter ▸ List.cons_ne_nil t rest), hafter] using hc

namespace Counted

variable {α β : Type} {depth m n : Nat} {limits : Limits} {c : Cursor}

section Bind

variable {q : Counted α} {f : α → Counted β} {d : Cursor}

theorem bind_of_ok {a : α} (h : q c = (.ok a d, n)) :
    (q >>= f) c = ((f a d).1, max n (f a d).2) := by
  simp only [Bind.bind, h]

theorem bind_of_error {e : SyntaxError} (h : q c = (.error e d, n)) :
    (q >>= f) c = (.error e d, n) := by
  simp only [Bind.bind, h]

end Bind

theorem nested_of_lt {q : Counted α} (h : limits.depth < c.depth + 1) :
    nested limits q c = (.error ⟨.tooDeep limits.depth, some c.current⟩ c.deeper, 0) :=
  bind_of_error (congrArg (·, 0) (Parser.enter_of_lt h))

theorem nested_of_not_lt {q : Counted α} (h : ¬limits.depth < c.depth + 1) :
    nested limits q c = match q c.deeper with
      | (.ok a d, n) => (.ok a (Parser.leave d), n)
      | (.error e d, n) => (.error e (Parser.leave d), n) :=
  (bind_of_ok (congrArg (·, 0) (Parser.enter_of_not_lt h))).trans
    (congrArg (Prod.mk _) (Nat.zero_max _))

def Keeps (p : Parser α) : Prop :=
  ∀ c : Cursor, c.Closed → p.Ends c (fun _ d => d.Closed ∧ d.depth = c.depth) fun _ _ => True

namespace Keeps

open Cmm.Parser

variable {p : Parser α}

theorem of_runs {Q : Cursor → α → List Token → Cursor → Prop}
    {E : SyntaxError → List Token → Cursor → Cursor → Prop} (h : ∀ c, Runs c p (Q c) E) : Keeps p :=
  fun c hc => (h c hc).imp (fun _ _ ⟨_, hu, _⟩ => ⟨hu.closed hc, hu.depth⟩) fun _ _ _ => trivial

theorem current : Keeps Parser.current := fun _ hc => ⟨hc, rfl⟩

theorem get : Keeps (get : Parser Cursor) := fun _ hc => ⟨hc, rfl⟩

theorem at? (kind : Kind) : Keeps (Parser.at? kind) := fun _ hc => ⟨hc, rfl⟩

theorem atPrimitive : Keeps Parser.atPrimitive := fun _ hc => ⟨hc, rfl⟩

theorem advance : Keeps Parser.advance := fun c hc => ⟨hc.advance, c.depth_advance⟩

theorem accept (kind : Kind) : Keeps (Parser.accept kind) := by
  intro c hc
  by_cases h : c.current.kind = kind
  · exact ends_of_ok (accept_of_eq h) ⟨hc.advance, c.depth_advance⟩
  · exact ends_of_ok (accept_of_ne h) ⟨hc, rfl⟩

theorem expect (kind : Kind) (message : String) : Keeps (Parser.expect kind message) := by
  intro c hc
  by_cases h : c.current.kind = kind
  · exact ends_of_ok (expect_of_eq h message) ⟨hc.advance, c.depth_advance⟩
  · rw [Ends, expect_of_ne h message]
    trivial

theorem semicolon (message : String) : Keeps (Parser.semicolon message) :=
  fun c hc => ends_bind.2 (expect (.symbol .semicolon) message c hc)

theorem fail (message : String) : Keeps (Parser.fail message : Parser α) := fun _ _ => trivial

theorem exhausted : Keeps (Parser.exhausted : Parser α) := fun _ _ => trivial

theorem checkHeight (limits : Limits) (height : Nat) (t : Token) :
    Keeps (Parser.checkHeight limits height t) := by
  intro c hc
  by_cases h : limits.height < height
  · rw [Ends, Parser.checkHeight, if_pos h]
    trivial
  · exact ends_of_ok (checkHeight_of_not_lt h t) ⟨hc, rfl⟩

end Keeps

/-- Run where some levels of nesting are open, `q` reads what `p` reads, and has no more than `n`
calls open at once. -/
def Counts (depth : Nat) (q : Counted α) (p : Parser α) (n : Nat) : Prop :=
  ∀ c : Cursor, c.Closed → c.depth = depth →
    (q c).1 = p c ∧ (q c).2 ≤ n ∧ p.Ends c (fun _ d => d.Closed ∧ d.depth = depth) fun _ _ => True

namespace Counts

variable {q : Counted α} {p : Parser α} {f : α → Counted β} {g : α → Parser β}

theorem weaken (h : Counts depth q p m) (hle : m ≤ n) : Counts depth q p n := by
  intro c hc hdepth
  obtain ⟨heq, hcalls, hend⟩ := h c hc hdepth
  exact ⟨heq, Nat.le_trans hcalls hle, hend⟩

theorem lift (h : Keeps p) : Counts depth (liftM p) p n := by
  rintro c hc rfl
  exact ⟨rfl, Nat.zero_le n, h c hc⟩

theorem pure (a : α) : Counts depth (pure a) (pure a) n := by
  rintro c hc rfl
  exact ⟨rfl, Nat.zero_le n, hc, rfl⟩

theorem bind (hq : Counts depth q p n) (hf : ∀ a, Counts depth (f a) (g a) n) :
    Counts depth (q >>= f) (p >>= g) n := by
  intro c hc hdepth
  obtain ⟨heq, hle, hend⟩ := hq c hc hdepth
  rw [Parser.ends_bind]
  unfold Parser.Ends at hend ⊢
  rcases hrun : q c with ⟨result, calls⟩
  rw [hrun] at heq hle
  rw [← heq] at hend ⊢
  cases result with
  | error e d =>
      rw [bind_of_error hrun, Parser.bind_of_error heq.symm]
      exact ⟨rfl, hle, trivial⟩
  | ok a d =>
      rw [bind_of_ok hrun, Parser.bind_of_ok heq.symm]
      obtain ⟨heq', hle', hend'⟩ := hf a d hend.1 hend.2
      exact ⟨heq', Nat.max_le.2 ⟨hle, hle'⟩, hend'⟩

theorem call (h : Counts depth q p n) : Counts depth (call q) p (n + 1) := by
  intro c hc hdepth
  obtain ⟨heq, hle, hend⟩ := h c hc hdepth
  exact ⟨heq, Nat.succ_le_succ hle, hend⟩

theorem nested (h : (depth : Int) < limits.depth → Counts (depth + 1) q p n) :
    Counts depth (nested limits q) (Parser.nested limits p) n := by
  rintro c hc rfl
  by_cases hlt : limits.depth < c.depth + 1
  · rw [nested_of_lt hlt, Parser.Ends, Parser.nested_of_lt hlt]
    exact ⟨rfl, Nat.zero_le n, trivial⟩
  · obtain ⟨heq, hle, hend⟩ := h (by omega) c.deeper hc rfl
    rw [nested_of_not_lt hlt, Parser.Ends, Parser.nested_of_not_lt hlt]
    unfold Parser.Ends at hend
    rcases hrun : q c.deeper with ⟨result, calls⟩
    rw [hrun] at heq hle
    rw [← heq] at hend ⊢
    cases result with
    | error e d => exact ⟨rfl, hle, trivial⟩
    | ok a d => exact ⟨rfl, hle, hend.1, by simp [Parser.leave, hend.2]⟩

theorem measured {q : Nat → Counted α} {p : Nat → Parser α}
    (h : ∀ steps, Counts depth (q steps) (p steps) n) :
    Counts depth (measured q) (Parser.measured p) n :=
  fun c => h _ c

theorem ite {b : Prop} [Decidable b] {q' : Counted α} {p' : Parser α} (h : Counts depth q p n)
    (h' : Counts depth q' p' n) :
    Counts depth (if b then q else q') (if b then p else p') n := by
  split
  · exact h
  · exact h'

end Counts

end Counted

end Cmm

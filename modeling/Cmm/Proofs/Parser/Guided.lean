import Cmm.Proofs.Grammar.Prediction
import Cmm.Proofs.Parser.Outcome

/-!
# Parsers guided by goals

A parser is guided from some goals to others if it takes what the reader of the grammar takes for
the goals in front and stops where the other goals are to come.  If it fails at an unexpected token,
that is where the reader stops.  A guided parser never runs out of steps, it leaves the nesting as
it was, except that a level beyond the limit stays counted, and it keeps to the limits where there
is room.

The rules of this module follow the ways in which parsers are put together.
-/

namespace Cmm

def SyntaxCause.isLimit : SyntaxCause → Bool
  | .tooDeep _ | .tooHigh _ => true
  | _ => false

/-- A parser that has gone to one cursor fails there and leaves another. -/
def SyntaxError.StopsAt (e : SyntaxError) (d d' : Cursor) : Prop :=
  match e.cause with
  | .unexpected _ => d' = d ∧ e.token = some d.current
  | .tooDeep _ => d' = d.deeper
  | .tooHigh _ => d' = d
  | .exhausted => False

theorem SyntaxError.StopsAt.same {e : SyntaxError} {d d' : Cursor} (h : e.StopsAt d d') :
    d'.before = d.before ∧ d'.ahead = d.ahead := by
  obtain ⟨cause, t⟩ := e
  cases cause with
  | unexpected message =>
      obtain ⟨rfl, -⟩ := h
      exact ⟨rfl, rfl⟩
  | tooDeep limit =>
      obtain rfl : d' = d.deeper := h
      exact ⟨rfl, rfl⟩
  | tooHigh limit =>
      obtain rfl : d' = d := h
      exact ⟨rfl, rfl⟩
  | exhausted => exact h.elim

theorem SyntaxError.StopsAt.ne_exhausted {e : SyntaxError} {d d' : Cursor} (h : e.StopsAt d d') :
    e.cause ≠ .exhausted := by
  intro hcause
  simp [SyntaxError.StopsAt, hcause] at h

theorem SyntaxError.StopsAt.leave {e : SyntaxError} {c d d' : Cursor} {u : List Token}
    (h : e.StopsAt d d') (hu : c.deeper.Reads u d) :
    e.StopsAt (Parser.leave d) (Parser.leave d') := by
  obtain ⟨cause, t⟩ := e
  cases cause with
  | unexpected message => exact ⟨congrArg _ h.1, h.2⟩
  | tooDeep limit =>
      obtain rfl : d' = d.deeper := h
      exact (Cursor.leave_deeper d).trans hu.leave.2.symm
  | tooHigh limit => exact congrArg Parser.leave h
  | exhausted => exact h

namespace Parser

open Goal

/-- From a cursor on, `p` takes at least some number of tokens for `front` and leaves `back`; the
limits are kept if `roomy` holds. -/
def Guided {α : Type} (roomy : Prop) (c : Cursor) (least : Nat) (front : List Goal) (p : Parser α)
    (back : List Goal) : Prop :=
  Runs c p
    (fun _ u d => least ≤ u.length ∧
      ∀ goals, leftover (front ++ goals) c.kinds = leftover (back ++ goals) d.kinds)
    (fun e _ d d' => e.StopsAt d d' ∧ (roomy → e.cause.isLimit = false) ∧
      (e.cause.isLimit = false → ∀ goals, leftover (front ++ goals) c.kinds = d.kinds))

namespace Guided

variable {α β : Type} {roomy : Prop} {c : Cursor} {i j : Nat} {front m back : List Goal}
  {g : Goal} {k : Kind} {p : Parser α} {f : α → Parser β} {limits : Limits}

/-! ## Goals that stand for each other -/

theorem weaken (h : Guided roomy c i front p back) (hj : j ≤ i) :
    Guided roomy c j front p back :=
  h.imp (fun _ _ _ _ h => ⟨Nat.le_trans hj h.1, h.2⟩) fun _ _ _ _ _ h => h

/-- Goals that the reader meets in the same way from here on may stand for each other. -/
theorem of_leftover
    (h : ∀ goals, leftover (front ++ goals) c.kinds = leftover (m ++ goals) c.kinds)
    (hp : Guided roomy c i m p back) : Guided roomy c i front p back := by
  refine hp.imp ?_ ?_
  · exact fun a u d _ hd => ⟨hd.1, fun goals => (h goals).trans (hd.2 goals)⟩
  · exact fun e u d d' _ he => ⟨he.1, he.2.1, fun hlimit goals => (h goals).trans (he.2.2 hlimit goals)⟩

theorem of_next
    (h : ∀ goals, next (front ++ goals) c.current.kind = next (m ++ goals) c.current.kind)
    (hp : Guided roomy c i m p back) : Guided roomy c i front p back :=
  of_leftover (fun goals => leftover_congr (h goals) _) hp

theorem frame (h : Guided roomy c i front p back) (rest : List Goal) :
    Guided roomy c i (front ++ rest) p (back ++ rest) := by
  refine h.imp ?_ ?_
  · exact fun a u d _ hd => ⟨hd.1, fun goals => by simpa using hd.2 (rest ++ goals)⟩
  · exact fun e u d d' _ he =>
      ⟨he.1, he.2.1, fun hlimit goals => by simpa using he.2.2 hlimit (rest ++ goals)⟩

/-! ## Parsers in a row -/

theorem pure {a : α} : Guided roomy c 0 front (pure a : Parser α) front :=
  Runs.pure ⟨Nat.le_refl 0, fun _ => rfl⟩

theorem pure_of {a : α}
    (h : ∀ goals, next (front ++ goals) c.current.kind = next (back ++ goals) c.current.kind) :
    Guided roomy c 0 front (Pure.pure a : Parser α) back :=
  of_next h pure

theorem bind_of {Q : α → List Token → Cursor → Prop} (hQ : Yields c p Q)
    (hp : Guided roomy c i front p m)
    (hf : ∀ a u d, c.Reads u d → i ≤ u.length → Q a u d →
      Guided roomy d (j - i) m (f a) back) :
    Guided roomy c j front (p >>= f) back := by
  refine (Runs.and hp hQ).bind fun a u d hu hd => ?_
  refine (hf a u d hu hd.1.1 hd.2).imp ?_ ?_
  · intro b v e _ he
    have hle := hd.1.1
    exact ⟨by rw [List.length_append]; omega, fun goals => (hd.1.2 goals).trans (he.2 goals)⟩
  · exact fun e v d' d'' _ he =>
      ⟨he.1, he.2.1, fun hlimit goals => (hd.1.2 goals).trans (he.2.2 hlimit goals)⟩

theorem bind (hp : Guided roomy c i front p m)
    (hf : ∀ a u d, c.Reads u d → i ≤ u.length → Guided roomy d (j - i) m (f a) back) :
    Guided roomy c j front (p >>= f) back :=
  hp.bind_of (Q := fun _ _ _ => True) (hp.imp (fun _ _ _ _ _ => trivial) fun _ _ _ _ _ _ => trivial)
    fun a u d hu hi _ => hf a u d hu hi

theorem map {γ : α → β} (hp : Guided roomy c i front p back) :
    Guided roomy c i front (γ <$> p) back :=
  Runs.map hp

theorem ite_bind {b : Prop} [Decidable b] {p q : Parser α}
    (h : Guided roomy c i front ((if b then p else q) >>= f) back) :
    Guided roomy c i front (if b then p >>= f else q >>= f) back :=
  Runs.ite_bind h

theorem measured {p : Nat → Parser α}
    (h : Guided roomy c i front (p (4 * (c.after.length + 1) + 8)) back) :
    Guided roomy c i front (measured p) back :=
  h

/-! ## Single tokens -/

theorem current {f : Token → Parser β} (h : Guided roomy c i front (f c.current) back) :
    Guided roomy c i front (current >>= f) back :=
  h

theorem get {f : Cursor → Parser β} (h : Guided roomy c i front (f c) back) :
    Guided roomy c i front (get >>= f) back :=
  h

theorem at? {f : Bool → Parser β} (h : Guided roomy c i front (f (c.current.kind = k)) back) :
    Guided roomy c i front (at? k >>= f) back :=
  h

theorem step {a : α} (hp : p c = .ok a c.advance) (hk : c.current.kind ≠ .endOfInput)
    (htake : ∀ goals, next (front ++ goals) c.current.kind = some (m ++ goals))
    (hf : ∀ d, c.Reads [c.current] d → Guided roomy d (i - 1) m (f a) back) :
    Guided roomy c i front (p >>= f) back := by
  intro hc
  have hu := Cursor.reads_advance hc hk
  have hgoals : ∀ goals,
      leftover (front ++ goals) c.kinds = leftover (m ++ goals) c.advance.kinds := by
    intro goals
    rw [hu.kinds, List.map_cons, List.cons_append, leftover_of_next (htake goals)]
    rfl
  refine Runs.step hp hu ((hf _ hu).imp ?_ ?_) hc
  · intro b v d _ hd
    exact ⟨by rw [List.length_append, List.length_singleton]; omega,
      fun goals => (hgoals goals).trans (hd.2 goals)⟩
  · exact fun e v d d' _ he =>
      ⟨he.1, he.2.1, fun hlimit goals => (hgoals goals).trans (he.2.2 hlimit goals)⟩

theorem advance {f : Unit → Parser β} (hk : c.current.kind ≠ .endOfInput)
    (htake : ∀ goals, next (front ++ goals) c.current.kind = some (m ++ goals))
    (hf : ∀ d, c.Reads [c.current] d → Guided roomy d (i - 1) m (f ()) back) :
    Guided roomy c i front (advance >>= f) back :=
  step rfl hk htake hf

theorem accept {f : Bool → Parser β} (hk : k ≠ .endOfInput)
    (htake : ∀ goals, next (front ++ goals) k = some (m ++ goals))
    (hyes : ∀ d, c.Reads [c.current] d → Guided roomy d (i - 1) m (f true) back)
    (hno : c.current.kind ≠ k → Guided roomy c i front (f false) back) :
    Guided roomy c i front (accept k >>= f) back := by
  by_cases h : c.current.kind = k
  · exact step (accept_of_eq h) (h ▸ hk) (h ▸ htake) hyes
  · exact Runs.step (accept_of_ne h) (.refl c) (hno h)

theorem fail {message : String} (h : ∀ goals, next (front ++ goals) c.current.kind = none) :
    Guided roomy c i front (fail message : Parser α) back :=
  Runs.fail ⟨⟨rfl, rfl⟩, fun _ => rfl, fun _ goals => leftover_of_next_eq_none (h goals) _⟩

theorem expect {f : Token → Parser β} {message : String} (hk : k ≠ .endOfInput)
    (hf : ∀ d, c.Reads [c.current] d → Guided roomy d (i - 1) front (f c.current) back) :
    Guided roomy c i (.token k :: front) (expect k message >>= f) back := by
  by_cases h : c.current.kind = k
  · exact step (expect_of_eq h message) (h ▸ hk) (fun goals => by simp [next, take?, h]) hf
  · refine Runs.stop (expect_of_ne h message) ⟨⟨rfl, rfl⟩, fun _ => rfl, fun _ goals => ?_⟩
    exact leftover_of_next_eq_none (by simp [next, take?, h, isOptional]) _

/-! ## Limits -/

theorem nested (hroom : roomy → ¬limits.depth < c.depth + 1)
    (hp : Guided roomy c.deeper i front p back) :
    Guided roomy c i front (nested limits p) back := by
  refine Runs.nested (fun _ => hp.imp ?_ ?_) fun h => ?_
  · exact fun a u d _ hd => hd
  · exact fun e u d d' hu he => ⟨he.1.leave hu, he.2⟩
  · exact ⟨rfl, fun hr => absurd h (hroom hr), nofun⟩

theorem checkHeight {f : Unit → Parser β} {height : Nat} {t : Token}
    (hroom : roomy → ¬limits.height < height)
    (hf : Guided roomy c i front (f ()) back) :
    Guided roomy c i front (checkHeight limits height t >>= f) back :=
  Runs.checkHeight (fun _ => hf) fun h => ⟨rfl, fun hr => absurd h (hroom hr), nofun⟩

end Guided

end Parser

end Cmm

/-!
Machines that are driven from outside: an action gives an answer and the next state.  Whatever each
action keeps, any list of actions keeps.
-/

namespace Cmm

/-- The answers to a list of actions, each with the state behind it. -/
def trace {σ α β : Type} (perform : σ → α → β × σ) (s : σ) : List α → List (β × σ)
  | [] => []
  | action :: rest => perform s action :: trace perform (perform s action).2 rest

def behind {σ α β : Type} (perform : σ → α → β × σ) (s : σ) (actions : List α) : σ :=
  actions.foldl (fun s action => (perform s action).2) s

theorem behind_append {σ α β : Type} (perform : σ → α → β × σ) (s : σ) (front back : List α) :
    behind perform s (front ++ back) = behind perform (behind perform s front) back :=
  List.foldl_append

theorem behind_keeps {σ α β : Type} {perform : σ → α → β × σ} {P : σ → Prop}
    (step : ∀ s action, P s → P (perform s action).2) {s : σ} (h : P s) (actions : List α) :
    P (behind perform s actions) := by
  induction actions generalizing s with
  | nil => exact h
  | cons action rest ih => exact ih (step s action h)

theorem trace_view {σ τ α β : Type} {perform : σ → α → β × σ} {other : τ → α → β × τ}
    {view : σ → τ} {P : σ → Prop} (step : ∀ s action, P s → P (perform s action).2)
    (same : ∀ s action, P s →
      other (view s) action = ((perform s action).1, view (perform s action).2))
    {s : σ} (h : P s) (actions : List α) :
    (trace perform s actions).map (fun r => (r.1, view r.2)) = trace other (view s) actions := by
  induction actions generalizing s with
  | nil => rfl
  | cons action rest ih =>
    rw [trace, trace, List.map_cons, same s action h, ih (step s action h)]

end Cmm

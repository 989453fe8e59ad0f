import Cmm.Proofs.Node.Composite
import Cmm.Proofs.Parser.Outcome

/-!
# What the limits are checked against

On its way a parser enters levels of nesting and builds expressions, and each of them is checked.
Which checks a run makes, and how it ends once it stands all of them, does not depend on the limits.
Within limits a parser ends the same way if these admit every check, and otherwise at the first
check that they do not admit.
-/

namespace Cmm.Parser

/-- What is checked at a token: the number of levels that are open once one more is entered, or an
expression that is built. -/
inductive Check where
  | level (depth : Nat) (token : Token)
  | built (e : Expr) (token : Token)
  deriving Repr

namespace Check

def Exceeds (limits : Limits) : Check → Prop
  | .level depth _ => limits.depth < depth
  | .built e _ => limits.height < e.height

instance (limits : Limits) (check : Check) : Decidable (check.Exceeds limits) := by
  cases check with
  | level depth t => exact inferInstanceAs (Decidable (limits.depth < depth))
  | built e t => exact inferInstanceAs (Decidable (limits.height < e.height))

theorem Exceeds.mono {limits higher : Limits} {check : Check} (h : check.Exceeds higher)
    (hdepth : limits.depth ≤ higher.depth) (hheight : limits.height ≤ higher.height) :
    check.Exceeds limits := by
  cases check with
  | level depth t => exact Int.lt_of_le_of_lt hdepth h
  | built e t => exact Int.lt_of_le_of_lt hheight h

def error (limits : Limits) : Check → SyntaxError
  | .level _ t => ⟨.tooDeep limits.depth, some t⟩
  | .built _ t => ⟨.tooHigh limits.height, some t⟩

def Builds (checks : List Check) (n : Node) : Prop := ∃ e t, built e t ∈ checks ∧ e.toNode = n

@[simp] theorem not_builds_nil {n : Node} : ¬Builds [] n := by
  simp [Builds]

@[simp] theorem builds_append {checks checks' : List Check} {n : Node} :
    Builds (checks ++ checks') n ↔ Builds checks n ∨ Builds checks' n := by
  constructor
  · rintro ⟨e, t, hmem, rfl⟩
    exact (List.mem_append.1 hmem).imp (fun hmem => ⟨e, t, hmem, rfl⟩) fun hmem => ⟨e, t, hmem, rfl⟩
  · rintro (⟨e, t, hmem, rfl⟩ | ⟨e, t, hmem, rfl⟩)
    · exact ⟨e, t, List.mem_append_left _ hmem, rfl⟩
    · exact ⟨e, t, List.mem_append_right _ hmem, rfl⟩

@[simp] theorem builds_level {depth : Nat} {t : Token} {checks : List Check} {n : Node} :
    Builds (level depth t :: checks) n ↔ Builds checks n := by
  simp [Builds]

@[simp] theorem builds_built {e : Expr} {t : Token} {n : Node} :
    Builds [built e t] n ↔ n = e.toNode := by
  simp [Builds, eq_comm]

end Check

def leaveResult {α : Type} : EStateM.Result SyntaxError Cursor α → EStateM.Result SyntaxError Cursor α
  | .ok a d => .ok a (leave d)
  | .error e d => .error e (leave d)

/-- The run of a parser from a cursor that stands the checks it makes: these, in order, and how it
ends. -/
inductive Passes : {α : Type} → (Limits → Parser α) → Cursor → List Check →
    EStateM.Result SyntaxError Cursor α → Prop
  | free {α : Type} (p : Parser α) (c : Cursor) : Passes (fun _ => p) c [] (p c)
  | congr {α : Type} {p q : Limits → Parser α} {c : Cursor} {checks : List Check}
      {r : EStateM.Result SyntaxError Cursor α} (heq : ∀ limits, p limits c = q limits c)
      (h : Passes q c checks r) : Passes p c checks r
  | bind {α β : Type} {p : Limits → Parser α} {f : Limits → α → Parser β} {c d : Cursor} {a : α}
      {checks checks' : List Check} {r : EStateM.Result SyntaxError Cursor β}
      (hp : Passes p c checks (.ok a d)) (hf : Passes (fun limits => f limits a) d checks' r) :
      Passes (fun limits => p limits >>= f limits) c (checks ++ checks') r
  | stop {α β : Type} {p : Limits → Parser α} {f : Limits → α → Parser β} {c d : Cursor}
      {e : SyntaxError} {checks : List Check} (hp : Passes p c checks (.error e d)) :
      Passes (fun limits => p limits >>= f limits) c checks (.error e d)
  | nested {α : Type} {p : Limits → Parser α} {c : Cursor} {checks : List Check}
      {r : EStateM.Result SyntaxError Cursor α} (hp : Passes p c.deeper checks r) :
      Passes (fun limits => nested limits (p limits)) c
        (.level (c.depth + 1) c.current :: checks) (leaveResult r)
  | checkHeight (e : Expr) (t : Token) (c : Cursor) :
      Passes (fun limits => checkHeight limits e.height t) c [.built e t] (.ok () c)

theorem checkHeight_of_lt {c : Cursor} {limits : Limits} {height : Nat}
    (h : limits.height < height) (t : Token) :
    checkHeight limits height t c = .error ⟨.tooHigh limits.height, some t⟩ c := by
  rw [checkHeight, if_pos h]
  rfl

variable {α β : Type} {p : Limits → Parser α} {f : Limits → α → Parser β} {c : Cursor}
  {checks : List Check} {r : EStateM.Result SyntaxError Cursor α} {limits : Limits}

namespace Passes

theorem eq_of_admitted (h : Passes p c checks r) (hadmitted : ∀ k ∈ checks, ¬k.Exceeds limits) :
    p limits c = r := by
  induction h with
  | free p c => rfl
  | congr heq _ ih => exact (heq limits).trans (ih hadmitted)
  | bind _ _ ihp ihf =>
      rw [List.forall_mem_append] at hadmitted
      exact (bind_of_ok (ihp hadmitted.1)).trans (ihf hadmitted.2)
  | stop _ ihp => exact bind_of_error (ihp hadmitted)
  | @nested α p c checks r _ ih =>
      rw [List.forall_mem_cons] at hadmitted
      have hnested := nested_of_not_lt (p := p limits) hadmitted.1
      rw [ih hadmitted.2] at hnested
      exact hnested.trans (by cases r <;> rfl)
  | checkHeight e t c =>
      exact checkHeight_of_not_lt (hadmitted _ (List.mem_singleton_self _)) t

theorem error_of_exceeds (h : Passes p c checks r) {front back : List Check} {k : Check}
    (hchecks : checks = front ++ k :: back) (hadmitted : ∀ j ∈ front, ¬j.Exceeds limits)
    (hk : k.Exceeds limits) : ∃ d, p limits c = .error (k.error limits) d := by
  induction h generalizing front back with
  | free p c => simp at hchecks
  | congr heq _ ih =>
      obtain ⟨d, hd⟩ := ih hchecks hadmitted
      exact ⟨d, (heq limits).trans hd⟩
  | @bind α β p f c d a checks checks' r hp _ ihp ihf =>
      rcases List.append_eq_append_iff.1 hchecks with ⟨v, rfl, hrest⟩ | ⟨v, hfront, hrest⟩
      · rw [List.forall_mem_append] at hadmitted
        obtain ⟨e, he⟩ := ihf hrest hadmitted.2
        exact ⟨e, (bind_of_ok (hp.eq_of_admitted hadmitted.1)).trans he⟩
      · cases v with
        | nil =>
            rw [List.append_nil] at hfront
            have hnil : checks' = [] ++ k :: back := hrest.symm
            obtain ⟨e, he⟩ := ihf hnil nofun
            exact ⟨e, (bind_of_ok (hp.eq_of_admitted (hfront ▸ hadmitted))).trans he⟩
        | cons j v =>
            obtain ⟨rfl, -⟩ := List.cons.inj hrest
            obtain ⟨e, he⟩ := ihp hfront hadmitted
            exact ⟨e, bind_of_error he⟩
  | stop _ ihp =>
      obtain ⟨d, hd⟩ := ihp hchecks hadmitted
      exact ⟨d, bind_of_error hd⟩
  | @nested α p c checks r _ ih =>
      cases front with
      | nil =>
          obtain ⟨rfl, -⟩ := List.cons.inj hchecks
          exact ⟨_, nested_of_lt hk⟩
      | cons j front =>
          obtain ⟨rfl, hrest⟩ := List.cons.inj hchecks
          rw [List.forall_mem_cons] at hadmitted
          obtain ⟨d, hd⟩ := ih hrest hadmitted.2
          have hnested := nested_of_not_lt (p := p limits) hadmitted.1
          rw [hd] at hnested
          exact ⟨leave d, hnested⟩
  | checkHeight e t c =>
      cases front with
      | nil =>
          obtain ⟨rfl, -⟩ := List.cons.inj hchecks
          exact ⟨c, checkHeight_of_lt hk t⟩
      | cons j front => simp at hchecks

/-- Within limits a run ends as it does without, or at the first check that they do not admit. -/
theorem run (h : Passes p c checks r) (limits : Limits) :
    match checks.find? fun k => k.Exceeds limits with
    | none => p limits c = r
    | some k => ∃ d, p limits c = .error (k.error limits) d := by
  cases hfind : checks.find? fun k => k.Exceeds limits with
  | none => exact h.eq_of_admitted fun k hk => by simpa using List.find?_eq_none.1 hfind k hk
  | some k =>
      obtain ⟨hk, front, back, hchecks, hadmitted⟩ := List.find?_eq_some_iff_append.1 hfind
      refine h.error_of_exceeds hchecks (fun j hj => ?_) (of_decide_eq_true hk)
      simpa using hadmitted j hj

end Passes

/-! ## Every run makes its checks -/

/-- Apart from the checks it makes, the run from a cursor does not look at the limits.  The
expressions that it checks are built from others, and if it succeeds, then these together with some
old ones are the new ones. -/
def Checked {α : Type} (p : Limits → Parser α) (c : Cursor) (old : Node → Prop)
    (new : α → Node → Prop) : Prop :=
  ∃ checks r, Passes p c checks r ∧ (∀ n, Check.Builds checks n → n.isComposite = true) ∧
    ∀ a d, r = .ok a d → ∀ n, new a n ↔ old n ∨ Check.Builds checks n

namespace Checked

variable {q : Limits → Parser α} {old old' : Node → Prop} {new mid : α → Node → Prop}
  {new' : β → Node → Prop}

theorem free {p : Parser α} (h : ∀ a d, p c = .ok a d → ∀ n, new a n ↔ old n) :
    Checked (fun _ => p) c old new :=
  ⟨[], p c, .free p c, by simp, fun a d hp n => by simp [h a d hp n]⟩

theorem skip (p : Parser α) (c : Cursor) : Checked (fun _ => p) c old fun _ => old :=
  free fun _ _ _ _ => .rfl

theorem pure {a : α} (h : ∀ n, new a n ↔ old n) : Checked (fun _ => Pure.pure a) c old new := by
  refine free fun b d hb => ?_
  cases hb
  exact h

theorem fail (message : String) (c : Cursor) :
    Checked (fun _ => (Parser.fail message : Parser α)) c old new :=
  free fun _ _ h => by cases h

theorem exhausted (c : Cursor) : Checked (fun _ => (Parser.exhausted : Parser α)) c old new :=
  free fun _ _ h => by cases h

theorem of_old (hp : Checked p c old' new) (h : ∀ n, old' n ↔ old n) : Checked p c old new := by
  obtain ⟨checks, r, hr, hcomposite, hnew⟩ := hp
  refine ⟨checks, r, hr, hcomposite, fun a d ha n => ?_⟩
  rw [hnew a d ha n, h n]

theorem bind (hp : Checked p c old mid)
    (hf : ∀ a d, Checked (fun limits => f limits a) d (mid a) new') :
    Checked (fun limits => p limits >>= f limits) c old new' := by
  obtain ⟨checks, r, hr, hcomposite, hmid⟩ := hp
  cases r with
  | ok a d =>
      obtain ⟨checks', r', hr', hcomposite', hnew⟩ := hf a d
      refine ⟨checks ++ checks', r', .bind hr hr', fun n hn => ?_, fun b e hb n => ?_⟩
      · exact (Check.builds_append.1 hn).elim (hcomposite n) (hcomposite' n)
      · rw [hnew b e hb n, hmid a d rfl n, Check.builds_append, or_assoc]
  | error e d => exact ⟨checks, .error e d, .stop hr, hcomposite, nofun⟩

theorem nested (hp : Checked p c.deeper old new) :
    Checked (fun limits => nested limits (p limits)) c old new := by
  obtain ⟨checks, r, hr, hcomposite, hnew⟩ := hp
  refine ⟨_, _, .nested hr, by simpa using hcomposite, fun a d ha n => ?_⟩
  cases r with
  | ok b e =>
      cases ha
      simp [hnew a e rfl n]
  | error e d => cases ha

theorem checkHeight (e : Expr) (t : Token) (c : Cursor) (he : e.toNode.isComposite = true) :
    Checked (fun limits => checkHeight limits e.height t) c old fun _ n => old n ∨ n = e.toNode := by
  refine ⟨_, _, .checkHeight e t c, fun n hn => ?_, fun a d _ n => by simp⟩
  rw [Check.builds_built.1 hn]
  exact he

theorem ite {b : Prop} [Decidable b] (hp : Checked p c old new) (hq : Checked q c old new) :
    Checked (fun limits => if b then p limits else q limits) c old new := by
  split
  · exact hp
  · exact hq

theorem measured {p : Limits → Nat → Parser α}
    (h : ∀ steps, Checked (fun limits => p limits steps) c old new) :
    Checked (fun limits => measured (p limits)) c old new := by
  obtain ⟨checks, r, hr, hchecks⟩ := h (4 * (c.after.length + 1) + 8)
  refine ⟨checks, r, ?_, hchecks⟩
  apply Passes.congr ?_ hr
  intro limits
  rfl

end Checked

end Cmm.Parser

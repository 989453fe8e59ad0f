import Cmm.Proofs.Session.Ending
import Cmm.Proofs.Token.Clamping
import Cmm.Session.Action
import Cmm.Trace
import Mathlib.Data.List.Induction

/-!
# One run after another

Nothing but the files is carried from one action to the next: each action is answered as by a
session that was just started.  A run over a source goes as its stages go that are asked for one
after the other.  Only the warnings that a session keeps tell of the past.
-/

namespace Cmm.Session

/-! ## What an action does -/

def Action.runs? (disk : Disk) : Action → Option String
  | .reprint source _ _ => some source
  | .reprintFile path _ _ =>
    match disk.source path with
    | .ok (.ok source) => some source
    | _ => none
  | .tokens _ | .program _ | .text _ => none

def Action.scans? (disk : Disk) : Action → Option String
  | .tokens source => some source
  | action => action.runs? disk

def Action.added : Action → List Warning
  | .tokens source => (Scan.ofText source.toList).kept
  | _ => []

theorem perform_of_runs (s : Session) {disk : Disk} {action : Action} {source : String}
    (h : action.runs? disk = some source) :
    (perform (s, disk) action).2.1 = ⟨s.settings, s.settings.warned (.ok source)⟩ := by
  cases action with
  | reprint =>
      cases h
      exact (s.reprint_ends disk source _ _).1.trans (s.scanned_eq source)
  | reprintFile path output space =>
      rw [Action.runs?] at h
      split at h
      · rename_i hsource
        cases h
        change (s.reprintFile disk path output space).session = _
        rw [reprintFile_eq, hsource]
        exact (s.reprint_ends disk source output _).1.trans (s.scanned_eq source)
      · cases h
  | tokens | program | text => cases h

theorem perform_of_not_runs (s : Session) {disk : Disk} {action : Action}
    (h : action.runs? disk = none) :
    (perform (s, disk) action).2 = (⟨s.settings, s.warnings ++ action.added⟩, disk) := by
  cases action with
  | reprint => cases h
  | reprintFile path output space =>
      have hsession : s = ⟨s.settings, s.warnings ++ []⟩ := by rw [List.append_nil]
      rw [Action.runs?] at h
      change ((s.reprintFile disk path output space).session,
          (s.reprintFile disk path output space).disk) =
        (⟨s.settings, s.warnings ++ []⟩, disk)
      rw [reprintFile_eq, ← hsession]
      cases hsource : disk.source path with
      | error e => rfl
      | ok source =>
          cases source with
          | error fault => rfl
          | ok source =>
              rw [hsource] at h
              cases h
  | tokens source => exact congrArg (·, disk) (s.session_tokens source)
  | program => simp [perform, Action.added]
  | text => simp [perform, Action.added]

theorem settings_perform (state : Session × Disk) (action : Action) :
    (perform state action).2.1.settings = state.1.settings := by
  obtain ⟨s, disk⟩ := state
  cases hruns : action.runs? disk with
  | some source => rw [perform_of_runs s hruns]
  | none => rw [perform_of_not_runs s hruns]

/-! ## Sequences of actions -/

def answerAfresh (settings : Settings) (disk : Disk) (action : Action) : Answer × Disk :=
  let (answer, _, disk) := perform (start settings, disk) action
  (answer, disk)

theorem answerAfresh_eq (s : Session) (disk : Disk) (action : Action) :
    answerAfresh s.settings disk action =
      ((perform (s, disk) action).1, (perform (s, disk) action).2.2) := by
  cases action with
  | reprint | program | text => rfl
  | reprintFile path output space =>
      change (Answer.report ((start s.settings).reprintFile disk path output space).report,
          ((start s.settings).reprintFile disk path output space).disk) =
        (Answer.report (s.reprintFile disk path output space).report,
          (s.reprintFile disk path output space).disk)
      rw [reprintFile_eq, reprintFile_eq]
      split <;> rfl
  | tokens source =>
      change (Answer.tokens ((start s.settings).tokens source).1, disk) =
        (Answer.tokens (s.tokens source).1, disk)
      rw [tokens_eq, tokens_eq]

def reached (settings : Settings) (disk : Disk) (actions : List Action) : Session × Disk :=
  behind perform (start settings, disk) actions

theorem settings_reached (settings : Settings) (disk : Disk) (actions : List Action) :
    (reached settings disk actions).1.settings = settings :=
  behind_keeps (P := fun state => state.1.settings = settings)
    (fun state action h => (settings_perform state action).trans h) rfl actions

/-! ## Stages one after the other -/

def staged (s : Session) (source : String) : Except Failure String := do
  let (tokens, s) := s.tokens source
  let tokens ← tokens.mapError Failure.scanning
  let program ← (s.program tokens).mapError Failure.parsing
  (s.text program.toNode).mapError Failure.printing

theorem staged_eq (s : Session) (source : String) : s.staged source =
    match Program.ofText s.settings.limits source with
    | .error (.scanning failure) => .error (.scanning failure)
    | .error (.parsing e) => .error (.parsing e)
    | .ok p => (s.text p.toNode).mapError Failure.printing := by
  have hsettings : (s.tokens source).2.settings = s.settings := by rw [session_tokens]
  have hprogram : ∀ tokens, (s.tokens source).2.program tokens =
      Program.ofTokens s.settings.limits tokens := fun tokens => by rw [program, hsettings]
  have htext : ∀ tree, (s.tokens source).2.text tree = s.text tree := fun tree => by
    rw [text, text, hsettings]
  simp only [staged, tokens_eq, hprogram, htext]
  cases htokens : (Scan.ofText source.toList).result with
  | error failure =>
      rw [Program.ofText_of_scan_error _ htokens]
      rfl
  | ok tokens =>
      rw [Program.ofText_of_result _ htokens]
      change ((Program.ofTokens s.settings.limits tokens).mapError Failure.parsing >>= _) = _
      cases Program.ofTokens s.settings.limits tokens with
      | error e => rfl
      | ok p => rfl

theorem staged_eq_ok_iff {s : Session} {source text : String} :
    s.staged source = .ok text ↔ ∃ p, s.settings.Prints source p text := by
  rw [staged_eq]
  cases hsource : Program.ofText s.settings.limits source with
  | error e =>
      constructor
      · cases e <;> exact nofun
      · rintro ⟨p, hp, -⟩
        cases hsource.symm.trans hp
  | ok p =>
      dsimp only
      constructor
      · intro h
        cases htext : s.text p.toNode with
        | error fault =>
            rw [htext] at h
            cases h
        | ok other =>
            rw [htext] at h
            cases h
            obtain ⟨hfault, hprinted⟩ := text_eq_ok_iff.1 htext
            exact ⟨p, hsource, by rw [← hfault, ← hprinted]⟩
      · rintro ⟨q, hq, hprinted⟩
        cases hsource.symm.trans hq
        rw [text_eq_ok_iff.2 ⟨by rw [hprinted], by rw [hprinted]⟩]
        rfl

/-- A run over a source succeeds with the text that its stages give, if they give one that can be
written, and fails as its stages fail. -/
structure RunsAsStaged (s : Session) (disk : Disk) (source : String)
    (output : Option String) : Prop where
  text : ∀ report text, (s.reprint disk source output).report = .ok report →
    report.text? = some text → s.staged source = .ok text
  succeeded : (∃ report, (s.reprint disk source output).report = .ok report ∧
    report.succeeded = true) ↔ (∃ text, s.staged source = .ok text) ∧ disk.Takes output
  failure : ∀ failure, s.staged source = .error failure → ∃ report,
    (s.reprint disk source output).report = .ok report ∧ report.result = .error failure

theorem runsAsStaged (s : Session) (disk : Disk) (source : String) (output : Option String) :
    s.RunsAsStaged disk source output := by
  have hends := (s.reprint_ends disk source output).2
  refine ⟨fun report text hreport htext => ?_, ?_, fun failure hstaged => ?_⟩
  · rw [hreport] at hends
    obtain ⟨_, p, ⟨⟩, hprints, -⟩ := hends.prints_of_text htext
    exact staged_eq_ok_iff.2 ⟨p, hprints⟩
  · refine hends.succeeded_iff.trans (and_congr_left' ?_)
    constructor
    · rintro ⟨_, p, text, ⟨⟩, hprints⟩
      exact ⟨text, staged_eq_ok_iff.2 ⟨p, hprints⟩⟩
    · rintro ⟨text, hstaged⟩
      obtain ⟨p, hprints⟩ := staged_eq_ok_iff.1 hstaged
      exact ⟨source, p, text, rfl, hprints⟩
  · have hprints : ∀ p text, ¬s.settings.Prints source p text := by
      intro p text hprints
      cases hstaged.symm.trans (staged_eq_ok_iff.2 ⟨p, hprints⟩)
    rw [staged_eq] at hstaged
    generalize (s.reprint disk source output).report = report at hends ⊢
    generalize (s.reprint disk source output).disk = disk' at hends
    cases hends with
    | scanning h =>
        rw [h] at hstaged
        cases hstaged
        exact ⟨_, rfl, rfl⟩
    | parsing h =>
        rw [h] at hstaged
        cases hstaged
        exact ⟨_, rfl, rfl⟩
    | printing hp h =>
        rw [hp] at hstaged
        dsimp only at hstaged
        rw [text_eq_error_iff.2 h] at hstaged
        cases hstaged
        exact ⟨_, rfl, rfl⟩
    | writing h => exact absurd h (hprints _ _)
    | stopped h => exact absurd h (hprints _ _)
    | told h => exact absurd h (hprints _ _)
    | written h => exact absurd h (hprints _ _)

/-! ## Warnings that are kept -/

def AllShort (settings : Settings) (disk : Disk) (actions : List Action) : Prop :=
  ∀ before action after source, actions = before ++ action :: after →
    action.scans? (reached settings disk before).2 = some source →
      ∀ t ∈ Segment.split source.toList, ¬t.Overlong

def Action.asked : Action → List Warning
  | .tokens source => (Scan.ofText source.toList).warnings
  | _ => []

/-- The warnings behind a list of actions.  If one of them ran over a source, the last one that did
has set them to those of the settings and of its source.  The actions behind it leave the files as
they are. -/
inductive Recalls (settings : Settings) (disk : Disk) : List Action → List Warning → Prop where
  | unreached {actions : List Action} (h : ∀ action ∈ actions, action.runs? disk = none) :
      Recalls settings disk actions (actions.flatMap Action.asked)
  | reached {before later : List Action} {last : Action} {source : String}
      (hlast : last.runs? (reached settings disk before).2 = some source)
      (hlater : ∀ action ∈ later,
        action.runs? (reached settings disk (before ++ [last])).2 = none) :
      Recalls settings disk (before ++ last :: later) (settings.warnings ++
        (Scan.ofText source.toList).warnings ++ later.flatMap Action.asked)

theorem disk_behind_of_not_runs {s : Session} {disk : Disk} {actions : List Action}
    (h : ∀ action ∈ actions, action.runs? disk = none) :
    (behind perform (s, disk) actions).2 = disk := by
  induction actions generalizing s with
  | nil => rfl
  | cons action rest ih =>
      obtain ⟨haction, hrest⟩ := List.forall_mem_cons.1 h
      change (behind perform (perform (s, disk) action).2 rest).2 = disk
      rw [perform_of_not_runs s haction]
      exact ih hrest

theorem kept_of_short {text : List Char} (h : ∀ t ∈ Segment.split text, ¬t.Overlong) :
    (Scan.ofText text).kept = (Scan.ofText text).warnings :=
  Scan.kept_of_ok (Scan.tokens_of_readable fun t ht => Segment.readable_of_not_overlong ht (h t ht))

theorem added_of_short {disk : Disk} {action : Action}
    (h : ∀ source, action.scans? disk = some source →
      ∀ t ∈ Segment.split source.toList, ¬t.Overlong) : action.added = action.asked := by
  cases action with
  | tokens source => exact kept_of_short (h source rfl)
  | _ => rfl

theorem scans?_of_runs? {disk : Disk} {action : Action} {source : String}
    (h : action.runs? disk = some source) : action.scans? disk = some source := by
  cases action with
  | tokens => cases h
  | _ => exact h

theorem Recalls.concat {settings : Settings} {disk : Disk} {actions : List Action}
    {warnings : List Warning} {action : Action}
    (h : Recalls settings disk actions warnings)
    (hruns : action.runs? (Session.reached settings disk actions).2 = none) :
    Recalls settings disk (actions ++ [action]) (warnings ++ action.asked) := by
  -- whether the new action runs over a source is asked with the files behind all others, which are
  -- those behind the last run
  cases h with
  | unreached h =>
      have hdisk : (Session.reached settings disk actions).2 = disk := disk_behind_of_not_runs h
      rw [hdisk] at hruns
      have hall : Recalls settings disk (actions ++ [action]) _ :=
        .unreached (List.forall_mem_append.2 ⟨h, List.forall_mem_singleton.2 hruns⟩)
      rwa [List.flatMap_append, List.flatMap_singleton] at hall
  | @reached before later last source hlast hlater =>
      have hdisk : (Session.reached settings disk (before ++ last :: later)).2 =
          (Session.reached settings disk (before ++ [last])).2 := by
        rw [List.append_cons, Session.reached, behind_append]
        exact disk_behind_of_not_runs hlater
      rw [hdisk] at hruns
      have hall : Recalls settings disk (before ++ last :: (later ++ [action])) _ :=
        .reached hlast (List.forall_mem_append.2 ⟨hlater, List.forall_mem_singleton.2 hruns⟩)
      rwa [List.flatMap_append, List.flatMap_singleton, ← List.append_assoc, ← List.cons_append,
        ← List.append_assoc] at hall

theorem recalls_reached {settings : Settings} {disk : Disk} {actions : List Action}
    (h : AllShort settings disk actions) :
    Recalls settings disk actions (reached settings disk actions).1.warnings := by
  -- on the last action: it starts anew if it runs over a source, and else adds to what was there
  induction actions using List.reverseRecOn with
  | nil => exact .unreached nofun
  | append_singleton actions action ih =>
      have hbefore : AllShort settings disk actions := fun before a after source hsplit =>
        h before a (after ++ [action]) source (by rw [hsplit, List.append_assoc, List.cons_append])
      have hshort := fun source => h actions action [] source rfl
      have hstep : reached settings disk (actions ++ [action]) =
          (perform (reached settings disk actions) action).2 := behind_append ..
      have hsettings := settings_reached settings disk actions
      cases hruns : action.runs? (reached settings disk actions).2 with
      | some source =>
          have hlast : Recalls settings disk (actions ++ action :: []) _ := .reached hruns nofun
          rw [hstep, perform_of_runs _ hruns, hsettings]
          rwa [List.flatMap_nil, List.append_nil,
            ← kept_of_short (hshort source (scans?_of_runs? hruns))] at hlast
      | none =>
          rw [hstep, perform_of_not_runs _ hruns, added_of_short hshort]
          exact (ih hbefore).concat hruns

/-- Each of a list of actions is answered, and leaves the files, as with a session that was just
started.  Behind any actions, a run over a source goes as the stages of its source do.  The warnings
of the session are those that the settings and the last run over a source gave it and those of the
scans that were asked for after that, as long as no number has more digits than are allowed. -/
theorem session_starts_afresh (settings : Settings) (disk : Disk) (actions : List Action) :
    (trace perform (start settings, disk) actions).map (fun r => (r.1, r.2.2)) =
      trace (answerAfresh settings) disk actions ∧
    (∀ source output, (reached settings disk actions).1.RunsAsStaged
      (reached settings disk actions).2 source output) ∧
    (AllShort settings disk actions →
      Recalls settings disk actions (reached settings disk actions).1.warnings) := by
  refine ⟨?_, fun source output => runsAsStaged _ _ source output, recalls_reached⟩
  refine trace_view (P := fun state => state.1.settings = settings) ?_ ?_ rfl actions
  · exact fun state action h => (settings_perform state action).trans h
  · rintro ⟨s, disk⟩ action rfl
    exact answerAfresh_eq s disk action

private def threeActions : List Action :=
  [.tokens "5000000000", .reprint "3000000000" none, .tokens "@4000000000"]

private theorem allShort_threeActions :
    AllShort (.choose .unset none {}) .empty threeActions := by
  intro before action after source hsplit hscans
  apply Segment.not_overlong_of_length_le
  rcases before with _ | ⟨_, _ | ⟨_, _ | ⟨_, before⟩⟩⟩
  · cases hsplit
    cases hscans
    decide
  · cases hsplit
    cases hscans
    decide
  · cases hsplit
    cases hscans
    decide
  · simp [threeActions] at hsplit

theorem session_starts_afresh_of_scans :
    (reached (.choose .unset none {}) .empty threeActions).1.warnings =
      [.numberTooLarge ⟨1, 1⟩, .numberTooLarge ⟨1, 2⟩] := by
  have hrecalls := (session_starts_afresh _ _ _).2.2 allShort_threeActions
  generalize (reached (.choose .unset none {}) .empty threeActions).1.warnings = warnings
    at hrecalls ⊢
  generalize hactions : threeActions = actions at hrecalls
  cases hrecalls with
  | unreached h =>
      cases h (.reprint "3000000000" none) (by rw [← hactions]; simp [threeActions])
  | @reached before later last source hlast hlater =>
      rcases before with _ | ⟨_, _ | ⟨_, _ | ⟨_, before⟩⟩⟩
      · cases hactions
        cases hlast
      · cases hactions
        cases hlast
        decide +kernel
      · cases hactions
        cases hlast
      · simp [threeActions] at hactions

end Cmm.Session

import Cmm.Proofs.Program.Calls

/-!
# Reading comes to an end

Every part is read or refused, at whatever token it is asked for, if as many calls may be open at
once as the limit on nesting allows for.  The cursor never goes beyond the first end of the input at
or after the place where it starts.  The loops in the reading of a program are repeated turns, each
of which takes at least one token in front of that end.
-/

namespace Cmm

namespace Parser

/-! ## Loops -/

def beginsVariable (kind : Kind) : Bool :=
  (Primitive.ofKind? kind).isSome || kind = .keyword .struct

theorem atVariable_eq : atVariable = do return beginsVariable (← current).kind := rfl

/-- A loop in the reading of a program, with what has been read so far. -/
inductive Loop where
  | declarations (done : List Decl)
  | variableDecls (done : List VariableDecl)
  | fields (done : List VariableDecl)
  | formals (done : List Formal)
  | statements (done : List Stmt)
  | operators (minimum : Int) (left : Expr)
  | dots (loc : Loc)
  | arguments (done : List Expr)

namespace Loop

/-- A turn that reads one more item, unless the kind of the next token tells that there is none. -/
def itemUnless {α : Type} (stop : Kind → Bool) (item : Parser α) (state : List α → Loop)
    (done : List α) : Parser (ForInStep Loop) := do
  if stop (← current).kind then
    return .done (state done)
  else
    return .yield (state (done ++ [← item]))

def itemAndComma {α : Type} (item : Parser α) (state : List α → Loop) (done : List α) :
    Parser (ForInStep Loop) := do
  let last ← item
  if ← accept (.symbol .comma) then
    return .yield (state (done ++ [last]))
  else
    return .done (state (done ++ [last]))

def turn (limits : Limits) (steps : Nat) : Loop → Parser (ForInStep Loop)
  | declarations done => itemUnless (· = .endOfInput) (declaration limits) declarations done
  | variableDecls done => itemUnless (!beginsVariable ·) variableDecl variableDecls done
  | fields done => itemUnless (· = .symbol .rightCurly) field fields done
  | formals done => itemAndComma formal formals done
  | statements done => itemUnless (· = .symbol .rightCurly) (statementIn limits steps) statements done
  | operators minimum left => do
    let t ← current
    match BinaryOp.ofKind? t.kind with
    | none => return .done (operators minimum left)
    | some op =>
      if op.precedence < minimum then
        return .done (operators minimum left)
      else
        advance
        let right ← binaryIn limits steps (op.precedence + 1)
        let whole := Expr.binary op left right t.position
        checkHeight limits whole.height t
        return .yield (operators minimum whole)
  | dots loc => do
    let dot ← current
    if ← accept (.symbol .dot) then
      let id ← name "Expected field name after '.'"
      let longer := Loc.field loc id dot.position
      checkHeight limits longer.height dot
      return .yield (dots longer)
    else
      return .done (dots loc)
  | arguments done => itemAndComma (binaryIn limits steps 1) arguments done

def run (limits : Limits) : Nat → Loop → Parser Loop
  | 0, _ => exhausted
  | steps + 1, loop => do
    match ← loop.turn limits steps with
    | .yield next => next.run limits steps
    | .done last => return last

theorem run_succ (limits : Limits) (steps : Nat) (loop : Loop) :
    loop.run limits (steps + 1) = do
      match ← loop.turn limits steps with
      | .yield next => next.run limits steps
      | .done last => return last := rfl

/-- A number of turns, the last of which finds the loop done. -/
inductive Turns (limits : Limits) : Nat → Loop → Cursor → Loop → Cursor → Prop
  | last {steps : Nat} {loop done : Loop} {c d : Cursor}
    (hturn : loop.turn limits steps c = .ok (.done done) d) : Turns limits 1 loop c done d
  | more {steps n : Nat} {loop next done : Loop} {c d e : Cursor}
    (hturn : loop.turn limits steps c = .ok (.yield next) d)
    (hmore : Turns limits n next d done e) : Turns limits (n + 1) loop c done e

/-- A loop that comes to an end has made some turns. -/
theorem exists_turns {limits : Limits} {steps : Nat} {loop done : Loop} {c d : Cursor}
    (h : loop.run limits steps c = .ok done d) : ∃ n, Turns limits n loop c done d := by
  induction steps generalizing loop c with
  | zero => cases h
  | succ steps ih =>
      obtain ⟨r, c', hturn, hrest⟩ := exists_of_bind_ok h
      cases r with
      | done last =>
          cases hrest
          exact ⟨1, .last hturn⟩
      | yield next =>
          obtain ⟨n, hmore⟩ := ih hrest
          exact ⟨n + 1, .more hturn hmore⟩

def read (limits : Limits) (steps : Nat) : Loop → Parser Loop
  | declarations done => return declarations (done ++ (← declarationsIn limits steps))
  | variableDecls done => return variableDecls (done ++ (← variableDeclsIn steps))
  | fields done => return fields (done ++ (← fieldsIn steps))
  | formals done => return formals (done ++ (← formalsIn steps))
  | statements done => return statements (done ++ (← statementsIn limits steps))
  | operators minimum left => return operators minimum (← operatorsIn limits steps minimum left)
  | dots loc => return dots (← Parser.fields limits steps loc)
  | arguments done => return arguments (done ++ (← argumentsIn limits steps))

section Turns

variable {α : Type} {limits : Limits} {steps : Nat} {item : Parser α} (state : List α → Loop)
  (p : Nat → Parser (List α))

theorem run_itemUnless (stop : Kind → Bool)
    (hturn : ∀ done, (state done).turn limits steps = itemUnless stop item state done)
    (hp : p (steps + 1) = do
      if stop (← current).kind then return [] else return (← item) :: (← p steps))
    (ih : ∀ done, (state done).run limits steps = do return state (done ++ (← p steps)))
    (done : List α) :
    (state done).run limits (steps + 1) = do return state (done ++ (← p (steps + 1))) := by
  rw [run_succ, hturn, hp, itemUnless]
  simp only [bind_assoc]
  refine bind_congr fun t => ?_
  split <;> simp [ih]

theorem run_itemAndComma
    (hturn : ∀ done, (state done).turn limits steps = itemAndComma item state done)
    (hp : p (steps + 1) = do
      let first ← item
      if ← accept (.symbol .comma) then return first :: (← p steps) else return [first])
    (ih : ∀ done, (state done).run limits steps = do return state (done ++ (← p steps)))
    (done : List α) :
    (state done).run limits (steps + 1) = do return state (done ++ (← p (steps + 1))) := by
  rw [run_succ, hturn, hp, itemAndComma]
  simp only [bind_assoc]
  refine bind_congr fun first => bind_congr fun more => ?_
  cases more <;> simp [ih]

end Turns

theorem variableDeclsIn_succ (steps : Nat) : variableDeclsIn (steps + 1) = do
    if !beginsVariable (← current).kind then return []
    else return (← variableDecl) :: (← variableDeclsIn steps) := by
  rw [variableDeclsIn, atVariable_eq]
  simp only [bind_assoc, pure_bind]
  refine bind_congr fun t => ?_
  by_cases hbegins : beginsVariable t.kind = true <;> simp [hbegins]

/-- Lists, chains of operators and paths of fields are read turn by turn. -/
theorem run_eq_read (limits : Limits) (steps : Nat) (loop : Loop) :
    loop.run limits steps = loop.read limits steps := by
  induction steps generalizing loop with
  | zero => cases loop <;> rfl
  | succ steps ih =>
      cases loop with
      | declarations done =>
          exact run_itemUnless declarations (declarationsIn limits) (· = .endOfInput) (fun _ => rfl)
            rfl (fun _ => ih _) done
      | variableDecls done =>
          exact run_itemUnless variableDecls variableDeclsIn (!beginsVariable ·) (fun _ => rfl)
            (variableDeclsIn_succ steps) (fun _ => ih _) done
      | fields done =>
          exact run_itemUnless fields fieldsIn (· = .symbol .rightCurly) (fun _ => rfl) rfl
            (fun _ => ih _) done
      | formals done =>
          exact run_itemAndComma formals formalsIn (fun _ => rfl) rfl (fun _ => ih _) done
      | statements done =>
          exact run_itemUnless statements (statementsIn limits) (· = .symbol .rightCurly)
            (fun _ => rfl) rfl (fun _ => ih _) done
      | operators minimum left =>
          simp only [run_succ, turn, read, operatorsIn, bind_assoc]
          refine bind_congr fun t => ?_
          cases BinaryOp.ofKind? t.kind with
          | none => simp
          | some op =>
              dsimp only
              split <;> simp [ih, read]
      | dots loc =>
          simp only [run_succ, turn, read, Parser.fields, bind_assoc]
          refine bind_congr fun dot => bind_congr fun more => ?_
          cases more <;> simp [ih, read]
      | arguments done =>
          exact run_itemAndComma arguments (argumentsIn limits) (fun _ => rfl) rfl
            (fun _ => ih _) done

end Loop

/-! ## Progress -/

abbrev Takes {α : Type} (c : Cursor) (p : Parser α) : Prop :=
  Yields c p fun _ u _ => u ≠ []

/-- A turn that finds the loop done as it is, or takes a token or more. -/
abbrev Progresses (c : Cursor) (loop : Loop) (turn : Parser (ForInStep Loop)) : Prop :=
  Yields c turn fun r u _ => r = .done loop ∧ u = [] ∨ u ≠ []

section Turns

variable {α : Type} {c : Cursor} {loop : Loop}

theorem takes_of_placedOn {p : Parser α} {toNode : α → Node}
    (h : Yields c p fun a u _ => (toNode a).PlacedOn u) : Takes c p :=
  h.yields fun _ _ _ _ hplaced => hplaced.ne_nil (List.cons_ne_nil _ _)

theorem progresses_done : Progresses c loop (pure (.done loop)) := .pure (.inl ⟨rfl, rfl⟩)

theorem Takes.bind {p : Parser α} {f : α → Parser (ForInStep Loop)} (hp : Takes c p)
    (hf : ∀ a d, Yields d (f a) fun _ _ _ => True) : Progresses c loop (p >>= f) := by
  refine Runs.bind hp fun a u d _ hu => (hf a d).yields fun r v e _ _ => .inr ?_
  simp [hu]

theorem progresses_itemUnless {stop : Kind → Bool} {item : Parser α} {state : List α → Loop}
    {done : List α} (hitem : Takes c item) :
    Progresses c (state done) (Loop.itemUnless stop item state done) := by
  refine .current ?_
  split
  · exact progresses_done
  · exact hitem.bind fun _ _ => .pure trivial

theorem progresses_itemAndComma {item : Parser α} {state : List α → Loop} {done : List α}
    (hitem : Takes c item) :
    Progresses c (state done) (Loop.itemAndComma item state done) := by
  refine hitem.bind fun _ _ => ?_
  exact .accept (by simp) (fun _ => .pure trivial) fun _ => .pure trivial

theorem progresses_operators (limits : Limits) (steps : Nat) (minimum : Int) (left : Expr) :
    Progresses c (.operators minimum left) (Loop.turn limits steps (.operators minimum left)) := by
  refine .current ?_
  split
  · exact progresses_done
  · rename_i op hop
    split
    · exact progresses_done
    · refine .advance (by simp [BinaryOp.eq_symbol_of_ofKind? hop]) ?_
      refine .bind ((exprPlaced limits steps).binary _ _) fun right u d _ _ => ?_
      exact .checkHeight (fun _ => .pure (.inr (List.cons_ne_nil _ _))) fun _ => trivial

theorem progresses_dots (limits : Limits) (steps : Nat) (loc : Loc) :
    Progresses c (.dots loc) (Loop.turn limits steps (.dots loc)) := by
  refine .current (.accept (by simp) (fun _ => ?_) fun _ => progresses_done)
  refine .bind (yields_placed_name _ _) fun id u d _ _ => ?_
  exact .checkHeight (fun _ => .pure (.inr (List.cons_ne_nil _ _))) fun _ => trivial

theorem progresses_turn (limits : Limits) (steps : Nat) (c : Cursor) (loop : Loop) :
    Progresses c loop (loop.turn limits steps) := by
  unfold Loop.turn
  cases loop with
  | declarations done =>
      exact progresses_itemUnless (takes_of_placedOn (yields_placed_declaration c))
  | variableDecls done =>
      exact progresses_itemUnless (takes_of_placedOn (yields_placed_variableDecl c))
  | fields done => exact progresses_itemUnless (takes_of_placedOn (yields_placed_field c))
  | formals done => exact progresses_itemAndComma (takes_of_placedOn (yields_placed_formal c))
  | statements done =>
      exact progresses_itemUnless (takes_of_placedOn ((stmtPlaced limits steps).statement c))
  | operators minimum left => exact progresses_operators limits steps minimum left
  | dots loc => exact progresses_dots limits steps loc
  | arguments done =>
      exact progresses_itemAndComma (takes_of_placedOn ((exprPlaced limits steps).binary c 1))

/-- All turns but the last one take a token or more. -/
theorem Loop.Turns.reads {limits : Limits} {n : Nat} {done : Loop} {d : Cursor}
    (h : loop.Turns limits n c done d) (hc : c.Closed) : ∃ u, n ≤ u.length + 1 ∧ c.Reads u d := by
  induction h with
  | @last steps loop done c d hturn =>
      obtain ⟨u, hu, -⟩ := (progresses_turn limits steps c loop hc).of_ok hturn
      exact ⟨u, Nat.le_add_left 1 _, hu⟩
  | @more steps n loop next done c d e hturn _ ih =>
      obtain ⟨u, hu, ⟨hdone, -⟩ | htaken⟩ := (progresses_turn limits steps c loop hc).of_ok hturn
      · cases hdone
      · obtain ⟨v, hle, hv⟩ := ih (hu.closed hc)
        have hlength : 0 < u.length := List.length_pos_iff.2 htaken
        refine ⟨u ++ v, ?_, hu.trans hv⟩
        rw [List.length_append]
        omega

end Turns

end Parser

/-! ## The first end of the input -/

namespace Cursor

variable {c d : Cursor} {u : List Token}

/-- A cursor that was moved from another one is not beyond the first end of the input that was at or
after it. -/
def WithinEnd (c d : Cursor) : Prop :=
  ∀ i, c.index ≤ i → c.tokens[i]?.map Token.kind = some .endOfInput → d.index ≤ i

theorem Reads.withinEnd (h : c.Reads u d) : c.WithinEnd d := by
  intro i hle hend
  rw [h.index]
  by_contra hlt
  have hi : i - c.index < u.length := by omega
  have hlength : c.before.reverse.length = c.index := List.length_reverse
  have hget : c.tokens[i]? = some u[i - c.index] := by
    rw [tokens_eq_append, h.ahead, List.getElem?_append_right (hlength ▸ hle), hlength,
      List.getElem?_append_left hi, List.getElem?_eq_getElem hi]
  rw [hget] at hend
  exact h.inside _ (List.getElem_mem hi) (Option.some.inj hend)

theorem WithinEnd.of_before_eq {d' : Cursor} (h : c.WithinEnd d) (hbefore : d'.before = d.before) :
    c.WithinEnd d' := by
  have hindex : d'.index = d.index := congrArg List.length hbefore
  intro i hle hend
  rw [hindex]
  exact h i hle hend

end Cursor

namespace Parser

/-- Wherever a part is asked for, it is read or refused with an error of its own: the steps do not
run out.  If it is read, at least as many tokens are taken as the part has, and in either case the
cursor is not beyond the first end of the input.  All this is so where only some number of calls may
be open at once, unless there are less than four of them to each level of nesting that is left, and
four more: then the calls may run out.  Every loop is what its turns come to, and each of these
finds it done, as it is, or takes a token or more in front of that end.  So a loop makes at most one
turn more than it takes tokens. -/
theorem reading_progresses (limits : Limits) {c : Cursor} (hc : c.Closed) :
    (∀ entry : Entry, match entry.parse limits c with
      | .ok _ d => c.index + entry.least ≤ d.index ∧ c.WithinEnd d
      | .error e d => e.cause ≠ .exhausted ∧ c.WithinEnd d) ∧
    (∀ (entry : Entry) (frames : Nat),
      entry.parseWithin frames limits c = some (entry.parse limits c) ∨
        entry.parseWithin frames limits c = none ∧
          frames < 4 * (limits.depth - c.depth).toNat + 4) ∧
    ∀ (loop : Loop) (steps : Nat), loop.run limits steps = loop.read limits steps ∧
      (∀ r d, loop.turn limits steps c = .ok r d →
        r = .done loop ∧ d = c ∨ c.index < d.index ∧ c.WithinEnd d) ∧
      ∀ done d, loop.run limits steps c = .ok done d →
        ∃ n, loop.Turns limits n c done d ∧ c.index + n ≤ d.index + 1 ∧ c.WithinEnd d := by
  refine ⟨?_, Entry.parseWithin_eq hc, ?_⟩
  · intro entry
    have hend := balanced_entry limits c entry hc
    unfold Ends at hend
    cases hrun : entry.parse limits c with
    | ok trees d =>
        rw [hrun] at hend
        obtain ⟨u, hu, hle⟩ := hend
        exact ⟨by rw [hu.index]; omega, hu.withinEnd⟩
    | error e d' =>
        rw [hrun] at hend
        obtain ⟨u, d, hu, hstop⟩ := hend
        exact ⟨hstop.ne_exhausted, hu.withinEnd.of_before_eq hstop.same.1⟩
  · intro loop steps
    refine ⟨loop.run_eq_read limits steps, fun r d hrun => ?_, fun done d hrun => ?_⟩
    · obtain ⟨u, hu, ⟨hdone, rfl⟩ | htaken⟩ := (progresses_turn limits steps c loop hc).of_ok hrun
      · exact .inl ⟨hdone, hu.unique (.refl c)⟩
      · have hlength : 0 < u.length := List.length_pos_iff.2 htaken
        exact .inr ⟨by rw [hu.index]; omega, hu.withinEnd⟩
    · obtain ⟨n, hturns⟩ := Loop.exists_turns hrun
      obtain ⟨u, hle, hu⟩ := hturns.reads hc
      exact ⟨n, hturns, by rw [hu.index]; omega, hu.withinEnd⟩

private def twice : Cursor :=
  .ofTokens [⟨.keyword .int "int", ⟨1, 1⟩⟩, ⟨.name "x", ⟨1, 5⟩⟩, ⟨.symbol .semicolon ";", ⟨1, 6⟩⟩,
    .endOfInput ⟨1, 7⟩, ⟨.keyword .int "int", ⟨2, 1⟩⟩, ⟨.name "y", ⟨2, 5⟩⟩,
    ⟨.symbol .semicolon ";", ⟨2, 6⟩⟩, .endOfInput ⟨2, 7⟩]

theorem reading_progresses_of_twice :
    twice.tokens[3]?.map Token.kind = some .endOfInput ∧
    (∃ trees d, Entry.program.parse {} twice = .ok trees d ∧ d.index ≤ 3) ∧
    Entry.program.parseWithin 1004 {} twice = some (Entry.program.parse {} twice) ∧
    ∃ next d, (Loop.declarations []).turn {} 9 twice = .ok (.yield next) d ∧
      0 < d.index ∧ d.index ≤ 3 := by
  have hclosed : twice.Closed := Cursor.closed_ofTokens _
  obtain ⟨hparts, hframes, hloops⟩ := reading_progresses {} hclosed
  refine ⟨rfl, ?_, ?_, ?_⟩
  · obtain ⟨trees, d, hrun⟩ : ∃ trees d, Entry.program.parse {} twice = .ok trees d := ⟨_, _, rfl⟩
    have hprogram := hparts .program
    rw [hrun] at hprogram
    exact ⟨trees, d, hrun, hprogram.2 3 (Nat.zero_le 3) rfl⟩
  · refine (hframes .program 1004).resolve_right fun ⟨_, hlt⟩ => ?_
    exact absurd hlt (by decide)
  · obtain ⟨next, d, hrun⟩ : ∃ next d,
        (Loop.declarations []).turn {} 9 twice = .ok (.yield next) d := ⟨_, _, rfl⟩
    rcases (hloops (.declarations []) 9).2.1 _ d hrun with ⟨hdone, -⟩ | ⟨hlt, hend⟩
    · cases hdone
    · exact ⟨next, d, hrun, hlt, hend 3 (Nat.zero_le 3) rfl⟩

private def calls (n : Nat) : List Token :=
  (List.range n).flatMap (fun i =>
    [⟨.name "f", ⟨1, 2 * i + 1⟩⟩, ⟨.symbol .leftParen "(", ⟨1, 2 * i + 2⟩⟩]) ++
  ⟨.number 1, ⟨1, 2 * n + 1⟩⟩ ::
  (List.range n).map fun i => ⟨.symbol .rightParen ")", ⟨1, 2 * n + 2 + i⟩⟩

/-- The limit on nesting admits 250 calls in the arguments of each other.  The error at the next one
is not reached where 1000 calls of the reading routines may be open at once: there is no room for
those it admits. -/
theorem reading_overflows_of_calls :
    Entry.expression.parseWithin 1000 {} (.ofTokens (calls 300)) = none ∧
    ∃ d, Entry.expression.parse {} (.ofTokens (calls 300)) =
      .error ⟨.tooDeep 250, some ⟨.name "f", ⟨1, 501⟩⟩⟩ d := by
  constructor
  · obtain ⟨rest, hrest⟩ : Counted.nestedCalls 250 <+: (Cursor.ofTokens (calls 300)).kinds := by
      decide +kernel
    refine Entry.parseWithin_of_nestedCalls hrest.symm ?_ (Nat.le_refl _)
    rw [Cursor.depth_ofTokens]
    decide
  · have herror : (match Entry.expression.parse {} (.ofTokens (calls 300)) with
        | .ok _ _ => none
        | .error e _ => some e) = some ⟨.tooDeep 250, some ⟨.name "f", ⟨1, 501⟩⟩⟩ := by
      decide +kernel
    cases hrun : Entry.expression.parse {} (.ofTokens (calls 300)) with
    | ok trees d =>
        rw [hrun] at herror
        cases herror
    | error e d =>
        rw [hrun] at herror
        exact ⟨d, by rw [Option.some.inj herror]⟩

end Parser

end Cmm

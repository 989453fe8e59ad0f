import Cmm.Proofs.Expr.Truncated
import Cmm.Proofs.Program.Acceptance

/-!
# Truncated programs

A truncation of an accepted list of tokens is accepted, or it is refused at its end.
-/

namespace Cmm

namespace Parser

variable {limits : Limits} {m n : Nat} {c d : Cursor}

/-- Two runs succeed, or the one on the truncated tokens fails as it may; the values do not
matter. -/
abbrev Keeps {α : Type} (c d : Cursor) (p q : Parser α) : Prop :=
  Follows c d p q fun _ _ => True

theorem Keeps.map {α β : Type} {p q : Parser α} {γ δ : α → β} (h : Keeps c d p q) :
    Keeps c d (γ <$> p) (δ <$> q) :=
  Follows.map h fun _ _ _ => trivial

/-! ## Types and variables -/

theorem primitive_failsAtEnd : FailsAtEnd primitive := by
  intro c hc
  unfold primitive
  rw [ends_current, hc]
  exact .inl rfl

theorem keeps_primitive : Keeps c d primitive primitive := by
  refine .of_failsAtEnd primitive_failsAtEnd fun hc hsame => .current ?_
  rw [hsame]
  split
  · exact .advance hc fun _ _ => .pure trivial
  · exact .fail

theorem keeps_semicolon (message : String) : Keeps c d (semicolon message) (semicolon message) :=
  .expect (by simp) fun _ _ _ _ => .pure trivial

theorem keeps_variableDecl : Keeps c d variableDecl variableDecl := by
  have hclose : ∀ (type type' : VariableType) (p p' : Position) (c d : Cursor), Keeps c d (do
        let id ← name "Expected identifier"
        semicolon "Expected ';' after declaration"
        return (⟨type, id, p⟩ : VariableDecl)) (do
        let id ← name "Expected identifier"
        semicolon "Expected ';' after declaration"
        return (⟨type', id, p'⟩ : VariableDecl)) := fun _ _ _ _ _ _ =>
    .bind (follows_name _) fun _ _ _ _ _ => .bind (keeps_semicolon _) fun _ _ _ _ _ =>
      .pure trivial
  refine .current (.accept (by simp) (fun c' d' => ?_) ?_ fun hc => ?_)
  · exact .bind (Keeps.map (follows_name _)) fun _ _ c₁ d₁ _ => hclose _ _ _ _ c₁ d₁
  · exact .bind keeps_primitive.map fun _ _ c₁ d₁ _ => hclose _ _ _ _ c₁ d₁
  · exact .fails_end hc primitive_failsAtEnd.map.bind

theorem keeps_atVariable {α : Type} {f g : Bool → Parser α}
    (hyes : c.current.kind ≠ .endOfInput → Keeps c d (f true) (g true))
    (hno : Keeps c d (f false) (g false))
    (hend : c.current.kind = .endOfInput → Keeps c d (f false) (g true)) :
    Keeps c d (atVariable >>= f) (atVariable >>= g) := by
  have hrun : ∀ (h : Bool → Parser α) (e : Cursor), (atVariable >>= h) e =
      h ((Primitive.ofKind? e.current.kind).isSome || decide (e.current.kind = .keyword .struct)) e :=
    fun _ _ => rfl
  intro hcut b d' hq
  rw [hrun] at hq
  unfold Ends
  rw [hrun]
  by_cases hc : c.current.kind = .endOfInput
  · rw [hc]
    cases hb : (Primitive.ofKind? d.current.kind).isSome ||
        decide (d.current.kind = .keyword .struct) with
    | true => exact hend hc hcut b d' (by rwa [hb] at hq)
    | false => exact hno hcut b d' (by rwa [hb] at hq)
  · rw [(hcut.advance hc).1]
    cases hb : (Primitive.ofKind? d.current.kind).isSome ||
        decide (d.current.kind = .keyword .struct) with
    | true => exact hyes hc hcut b d' (by rwa [hb] at hq)
    | false => exact hno hcut b d' (by rwa [hb] at hq)

theorem keeps_variableDeclsIn : Keeps c d (variableDeclsIn m) (variableDeclsIn n) := by
  induction n generalizing m c d with
  | zero => exact .exhausted_right
  | succ n ih =>
      cases m with
      | zero => exact .exhausted
      | succ m =>
          refine keeps_atVariable (fun _ => ?_) (.pure trivial) fun hc => ?_
          · exact .bind keeps_variableDecl fun _ _ _ _ _ => .bind ih fun _ _ _ _ _ => .pure trivial
          · exact .pure_end hc fun _ _ _ => trivial

theorem keeps_variableDecls : Keeps c d variableDecls variableDecls :=
  .current (.bind (.measured fun _ _ => keeps_variableDeclsIn) fun _ _ _ _ _ => .pure trivial)

/-! ## Structs -/

theorem field_failsAtEnd : FailsAtEnd field := by
  intro c hc
  change Ends (if ((Primitive.ofKind? c.current.kind).isSome ||
    decide (c.current.kind = .keyword .struct)) = true then _ else _) c _ _
  rw [hc]
  exact .inl rfl

theorem keeps_field : Keeps c d field field :=
  keeps_atVariable (fun _ => keeps_variableDecl) .fail fun _ => .fail

theorem keeps_until {α : Type} {k : Kind} {p q : Parser (List α)} (hk : k ≠ .endOfInput)
    (hfails : FailsAtEnd p) (hp : Keeps c d p q) :
    Keeps c d (do if ← at? k then return [] else p) (do if ← at? k then return [] else q) := by
  refine .at? (.of_end (fun hc => ?_) fun hc hsame => ?_)
  · rw [if_neg (by simpa [hc] using hk.symm)]
    exact (hfails c hc).of_fails
  · rw [hsame]
    split
    · exact .pure trivial
    · exact hp

theorem keeps_fieldsIn : Keeps c d (fieldsIn m) (fieldsIn n) := by
  induction n generalizing m c d with
  | zero => exact .exhausted_right
  | succ n ih =>
      cases m with
      | zero => exact .exhausted
      | succ m =>
          refine keeps_until (by simp) field_failsAtEnd.bind ?_
          exact .bind keeps_field fun _ _ _ _ _ => .bind ih fun _ _ _ _ _ => .pure trivial

theorem keeps_structDecl : Keeps c d structDecl structDecl := by
  refine .expect (by simp) fun _ _ _ _ => .bind (follows_name _) fun _ _ _ _ _ => ?_
  refine .expect (by simp) fun _ _ _ _ => .bind keeps_field fun _ _ _ _ _ => ?_
  refine .bind (.measured fun _ _ => keeps_fieldsIn) fun _ _ _ _ _ => ?_
  refine .expect (by simp) fun _ _ _ _ => ?_
  exact .bind (keeps_semicolon _) fun _ _ _ _ _ => .pure trivial

/-! ## Formal parameters -/

theorem formal_failsAtEnd : FailsAtEnd formal :=
  fun c hc => ends_current.2 (primitive_failsAtEnd.bind c hc)

theorem keeps_formal : Keeps c d formal formal :=
  .current (.bind keeps_primitive fun _ _ _ _ _ => .bind (follows_name _) fun _ _ _ _ _ =>
    .pure trivial)

theorem formalsIn_failsAtEnd : FailsAtEnd (formalsIn n) := by
  cases n with
  | zero => exact .exhausted
  | succ n => exact formal_failsAtEnd.bind

theorem keeps_formalsIn : Keeps c d (formalsIn m) (formalsIn n) := by
  induction n generalizing m c d with
  | zero => exact .exhausted_right
  | succ n ih =>
      cases m with
      | zero => exact .exhausted
      | succ m =>
          refine .bind keeps_formal fun _ _ c₁ d₁ _ => .accept (by simp) (fun _ _ => ?_)
            (.pure trivial) fun hc => .pure_end hc fun _ _ _ => trivial
          exact .bind ih fun _ _ _ _ _ => .pure trivial

theorem keeps_formals : Keeps c d formals formals := by
  refine .expect (by simp) fun _ _ c₁ d₁ => .at? (.of_end (fun hc => ?_) fun hc hsame => ?_)
  · rw [if_neg (by simp [hc])]
    have hfails : FailsAtEnd (measured formalsIn) := .measured fun _ => formalsIn_failsAtEnd
    exact (hfails.bind c₁ hc).of_fails
  · rw [hsame]
    split
    · refine .bind (.pure trivial) fun _ _ _ _ (_ : True) => ?_
      exact .expect (by simp) fun _ _ _ _ => .pure trivial
    · refine .bind (.measured fun _ _ => keeps_formalsIn) fun _ _ _ _ _ => ?_
      exact .expect (by simp) fun _ _ _ _ => .pure trivial

/-! ## Statements -/

theorem expression_failsAtEnd : FailsAtEnd (expression limits) :=
  .measured (p := fun steps => binaryIn limits steps 1) fun _ => binaryIn_failsAtEnd

theorem keeps_expression : Keeps c d (expression limits) (expression limits) :=
  .measured (p := fun steps => binaryIn limits steps 1) (q := fun steps => binaryIn limits steps 1)
    fun m n => ((exprFollows limits n).binary m 1 c d).imp fun _ _ _ => trivial

theorem keeps_condition (keyword : String) :
    Keeps c d (condition limits keyword) (condition limits keyword) :=
  .expect (by simp) fun _ _ _ _ => .bind keeps_expression fun _ _ _ _ _ =>
    .expect (by simp) fun _ _ _ _ => .pure trivial

def updateOf (limits : Limits) (p : Position) (loc : Loc) : Parser Stmt := do
  if ← at? (.symbol .assign) then
    let a ← assignment limits loc
    semicolon "Expected ';' after assignment"
    return .assign a p
  else if ← accept (.symbol .plusPlus) then
    semicolon "Expected ';' after '++'"
    return .increment loc p
  else if ← accept (.symbol .minusMinus) then
    semicolon "Expected ';' after '--'"
    return .decrement loc p
  else
    fail "Expected '=', '++' or '--' after location"

theorem updateOf_failsAtEnd (p : Position) (l : Loc) : FailsAtEnd (updateOf limits p l) := by
  intro c hc
  change Ends (if decide (c.current.kind = .symbol .assign) = true then _ else _) c _ _
  rw [if_neg (by simp [hc]), ends_accept_of_ne (by simp [hc])]
  change Ends (accept (.symbol .minusMinus) >>= _) c _ _
  rw [ends_accept_of_ne (by simp [hc])]
  exact .inl rfl

theorem keeps_updateOf (p p' : Position) {l l' : Loc} (hle : l.height ≤ l'.height) :
    Keeps c d (updateOf limits p l) (updateOf limits p' l') := by
  refine .of_failsAtEnd (updateOf_failsAtEnd p l) fun hc hsame => .at? ?_
  have hclose : ∀ (message : String) (s s' : Stmt) (c d : Cursor),
      Keeps c d (do semicolon message; return s) (do semicolon message; return s') :=
    fun _ _ _ _ _ => .bind (keeps_semicolon _) fun _ _ _ _ _ => .pure trivial
  rw [hsame]
  split
  · refine .bind (.measured (p := fun n => assignmentIn limits n l)
      (q := fun n => assignmentIn limits n l') fun m n =>
        (exprFollows limits n).assignment m l l' c d hle) fun _ _ _ _ _ => ?_
    exact hclose _ _ _ _ _
  · refine .accept (by simp) (fun _ _ => hclose _ _ _ _ _) ?_ fun hc' => absurd hc' hc
    refine .accept (by simp) (fun _ _ => hclose _ _ _ _ _) .fail fun hc' => absurd hc' hc

theorem keeps_nameStatement (hname : c.current.kind = .name) :
    Keeps c d (nameStatement limits) (nameStatement limits) := by
  have hc : c.current.kind ≠ .endOfInput := by simp [hname]
  refine .current (.get (.ahead (by simp) hc ?_ ?_ ?_ ?_))
  · refine .bind (.measured fun m n => (exprFollows limits n).call m c d) fun _ _ _ _ _ => ?_
    exact .bind (keeps_semicolon _) fun _ _ _ _ _ => .pure trivial
  · exact .bind follows_location fun l l' c₁ d₁ hle => keeps_updateOf _ _ hle
  · intro j hj hj' hkj
    obtain rfl : j = 1 := by omega
    obtain ⟨text, hlexeme⟩ := exists_lexeme_eq_name hname
    obtain ⟨id, hloc, hend⟩ := location_of_end limits hlexeme hkj
    refine fun _ b d' _ => ends_bind.2 (ends_of_ok hloc ?_)
    exact (updateOf_failsAtEnd _ _ _ hend).of_fails
  · intro j hj hj'
    omega

structure StmtKeeps (limits : Limits) (n : Nat) : Prop where
  block : ∀ m c d, Keeps c d (blockIn limits m) (blockIn limits n)
  statements : ∀ m c d, Keeps c d (statementsIn limits m) (statementsIn limits n)
  statement : ∀ m c d, Keeps c d (statementIn limits m) (statementIn limits n)

theorem statementIn_failsAtEnd : FailsAtEnd (statementIn limits n) := by
  intro c hc
  cases n with
  | zero => exact .inl rfl
  | succ n =>
      unfold statementIn
      rw [ends_current, hc]
      exact .inl rfl

namespace StmtKeeps

variable (h : StmtKeeps limits n)

include h

theorem keeps_block : Keeps c d (blockIn limits (m + 1)) (blockIn limits (n + 1)) := by
  refine .expect (by simp) fun _ _ _ _ => .nested (.bind keeps_variableDecls fun _ _ _ _ _ => ?_)
  refine .current (.bind (h.statements _ _ _) fun _ _ _ _ _ => ?_)
  exact .expect (by simp) fun _ _ _ _ => .pure trivial

theorem keeps_statements :
    Keeps c d (statementsIn limits (m + 1)) (statementsIn limits (n + 1)) := by
  refine keeps_until (by simp) statementIn_failsAtEnd.bind ?_
  exact .bind (h.statement _ _ _) fun _ _ _ _ _ => .bind (h.statements _ _ _) fun _ _ _ _ _ =>
    .pure trivial

theorem keeps_statement :
    Keeps c d (statementIn limits (m + 1)) (statementIn limits (n + 1)) := by
  refine .of_failsAtEnd statementIn_failsAtEnd fun hc hsame => .current ?_
  have loop : ∀ (keyword : String) (s s' : Expr → Block → Stmt),
      Keeps c d (do
        advance
        let e ← condition limits keyword
        return s e (← blockIn limits m)) (do
        advance
        let e ← condition limits keyword
        return s' e (← blockIn limits n)) := fun _ _ _ =>
    .advance hc fun _ _ => .bind (keeps_condition _) fun _ _ _ _ _ =>
      .bind (h.block _ _ _) fun _ _ _ _ _ => .pure trivial
  rw [hsame]
  split
  · exact .fail
  · exact .fail
  · exact .fail
  · exact .fail
  · refine .advance hc fun _ _ => .expect (by simp) fun _ _ _ _ => .bind follows_location ?_
    exact fun _ _ _ _ _ => .bind (keeps_semicolon _) fun _ _ _ _ _ => .pure trivial
  · refine .advance hc fun _ _ => .expect (by simp) fun _ _ _ _ => .bind keeps_expression ?_
    exact fun _ _ _ _ _ => .bind (keeps_semicolon _) fun _ _ _ _ _ => .pure trivial
  · refine .advance hc fun _ _ => .bind (keeps_condition _) fun _ _ _ _ _ => ?_
    refine .bind (h.block _ _ _) fun _ _ c₁ d₁ _ => .accept (by simp) (fun _ _ => ?_)
      (.pure trivial) fun hc' => .pure_end hc' fun _ _ _ => trivial
    exact .bind (h.block _ _ _) fun _ _ _ _ _ => .pure trivial
  · exact loop _ _ _
  · exact loop _ _ _
  · have hvalue : ∀ (p p' : Position) (c d : Cursor), Keeps c d (do
          let e ← expression limits
          semicolon "Expected ';' after return"
          return (.returnValue (some e) p : Stmt)) (do
          let e ← expression limits
          semicolon "Expected ';' after return"
          return (.returnValue (some e) p' : Stmt)) := fun _ _ _ _ =>
      .bind keeps_expression fun _ _ _ _ _ => .bind (keeps_semicolon _) fun _ _ _ _ _ =>
        .pure trivial
    refine .advance hc fun c₁ d₁ => .accept (by simp) (fun _ _ => .pure trivial)
      (hvalue _ _ _ _) fun hc' => ?_
    exact .fails_end hc' expression_failsAtEnd.bind
  · rename_i hname
    exact keeps_nameStatement (hsame ▸ hname)
  · exact .fail

theorem succ : StmtKeeps limits (n + 1) where
  block m c d := by
    cases m with
    | zero => exact .exhausted
    | succ m => exact h.keeps_block
  statements m c d := by
    cases m with
    | zero => exact .exhausted
    | succ m => exact h.keeps_statements
  statement m c d := by
    cases m with
    | zero => exact .exhausted
    | succ m => exact h.keeps_statement

end StmtKeeps

theorem stmtKeeps (limits : Limits) (n : Nat) : StmtKeeps limits n := by
  induction n with
  | zero =>
      exact ⟨fun _ _ _ => .exhausted_right, fun _ _ _ => .exhausted_right,
        fun _ _ _ => .exhausted_right⟩
  | succ n ih => exact ih.succ

/-! ## Declarations -/

theorem keeps_body : Keeps c d (body limits) (body limits) := by
  refine .current (.bind (.measured fun m n => (stmtKeeps limits n).block m c d) ?_)
  exact fun _ _ _ _ _ => .pure trivial

theorem keeps_primitiveDeclaration :
    Keeps c d (primitiveDeclaration limits) (primitiveDeclaration limits) := by
  have hvariable : ∀ (message : String) (s : Decl), FailsAtEnd (do semicolon message; return s) :=
    fun message _ => (FailsAtEnd.expect (by simp) message).bind.bind
  refine .current (.bind keeps_primitive fun _ _ _ _ _ => .bind (follows_name _) ?_)
  refine fun _ _ c₁ d₁ _ => .at? (.of_end (fun hc => ?_) fun _ hsame => ?_)
  · rw [if_neg (by simp [hc])]
    exact (hvariable _ _ c₁ hc).of_fails
  · rw [hsame]
    split
    · refine .bind keeps_formals fun _ _ _ _ _ => .bind keeps_body fun _ _ _ _ _ => ?_
      exact .pure trivial
    · exact .bind (keeps_semicolon _) fun _ _ _ _ _ => .pure trivial

theorem ends_name_bind {α : Type} {f : Name → Parser α} (hc : c.current.kind = .endOfInput ∨
      c.kindAhead? 1 = some .endOfInput) (message : String) (hf : ∀ id, FailsAtEnd (f id)) :
    (name message >>= f).Ends c (fun _ _ => False) fun e d => e.AtEnd d := by
  rcases hc with hc | hc
  · exact (name_failsAtEnd message).bind c hc
  have hafter : c.after ≠ [] := by
    intro hafter
    simp [Cursor.kindAhead?, hafter] at hc
  have hadvance : c.advance.current.kind = .endOfInput := by
    rw [← Cursor.kindAhead?_advance hafter] at hc
    exact Option.some.inj hc
  rw [ends_bind, name, ends_current]
  split
  · exact hf _ c.advance hadvance
  · exact .inl rfl

theorem current_advance {i : Nat} (hk : c.kindAhead? (i + 1) = some .endOfInput) :
    c.advance.kindAhead? i = some .endOfInput := by
  rw [Cursor.kindAhead?_advance, hk]
  intro hafter
  simp [Cursor.kindAhead?, hafter] at hk

theorem ends_variableDecl (hstruct : c.current.kind = .keyword .struct) {j : Nat} (hj : 1 ≤ j)
    (hj' : j ≤ 2) (hkj : c.kindAhead? j = some .endOfInput) :
    variableDecl.Ends c (fun _ _ => False) fun e d => e.AtEnd d := by
  have hnext : c.advance.current.kind = .endOfInput ∨
      c.advance.kindAhead? 1 = some .endOfInput := by
    rcases Nat.lt_or_eq_of_le hj' with hlt | rfl
    · obtain rfl : j = 1 := by omega
      exact .inl (Option.some.inj (current_advance hkj))
    · exact .inr (current_advance hkj)
  unfold variableDecl
  rw [ends_current]
  change Ends (accept (.keyword .struct) >>= _) c _ _
  rw [ends_bind]
  refine ends_of_ok (accept_of_eq hstruct) ?_
  change Ends ((VariableType.struct <$> name "Expected struct name") >>= _) c.advance _ _
  rw [ends_bind, ends_map, ← ends_bind (p := name "Expected struct name")]
  exact ends_name_bind hnext _ fun _ => (name_failsAtEnd _).bind

theorem ends_structDecl (hstruct : c.current.kind = .keyword .struct)
    (hk : c.kindAhead? 1 = some .endOfInput) :
    structDecl.Ends c (fun _ _ => False) fun e d => e.AtEnd d := by
  unfold structDecl
  rw [ends_bind]
  refine ends_of_ok (expect_of_eq hstruct _) ?_
  exact (name_failsAtEnd _).bind _ (Option.some.inj (current_advance hk))

theorem declaration_failsAtEnd : FailsAtEnd (declaration limits) := by
  intro c hc
  change Ends (if decide (c.current.kind = .keyword .struct) = true then _ else _) c _ _
  rw [if_neg (by simp [hc])]
  change Ends (if (Primitive.ofKind? c.current.kind).isSome = true then _ else _) c _ _
  rw [hc]
  exact .inl rfl

theorem keeps_declaration : Keeps c d (declaration limits) (declaration limits) := by
  refine .of_failsAtEnd declaration_failsAtEnd fun hc hsame => .at? ?_
  rw [← hsame]
  split
  · rename_i hstruct
    have hstruct : c.current.kind = .keyword .struct := by simpa using hstruct
    refine .get (.ahead (by simp) hc ?_ ?_ ?_ ?_)
    · exact .bind keeps_structDecl fun _ _ _ _ _ => .pure trivial
    · exact .bind keeps_variableDecl fun _ _ _ _ _ => .pure trivial
    · intro j hj hj' hkj _ b d' _
      exact ends_bind.2 (ends_variableDecl hstruct hj hj' hkj).of_fails
    · intro j hj hj' hkj _ b d' _
      obtain rfl : j = 1 := by omega
      exact ends_bind.2 (ends_structDecl hstruct hkj).of_fails
  · change Keeps c d (if (Primitive.ofKind? c.current.kind).isSome = true then _ else _)
      (if (Primitive.ofKind? d.current.kind).isSome = true then _ else _)
    rw [← hsame]
    split
    · exact keeps_primitiveDeclaration
    · exact .fail

theorem keeps_declarationsIn :
    Keeps c d (declarationsIn limits m) (declarationsIn limits n) := by
  induction n generalizing m c d with
  | zero => exact .exhausted_right
  | succ n ih =>
      cases m with
      | zero => exact .exhausted
      | succ m =>
          refine .at? ?_
          by_cases hc : c.current.kind = .endOfInput
          · rw [if_pos (by simpa using hc)]
            exact .pure_end hc fun _ _ _ => trivial
          · refine .of_end (fun hc' => absurd hc' hc) fun _ hsame => ?_
            rw [hsame]
            split
            · exact .pure trivial
            · exact .bind keeps_declaration fun _ _ _ _ _ => .bind ih fun _ _ _ _ _ =>
                .pure trivial

theorem keeps_program : Keeps c d (program limits) (program limits) :=
  .current (.bind (.measured fun _ _ => keeps_declarationsIn) fun _ _ _ _ _ => .pure trivial)

end Parser

/-! ## Truncations -/

theorem kindsToEnd_take_isPrefix (tokens : List Token) (n : Nat) :
    kindsToEnd (tokens.take n) <+: kindsToEnd tokens := by
  have hsplit : kindsToEnd tokens = ((tokens.take n).map Token.kind ++
      (tokens.drop n).map Token.kind).takeWhile (· ≠ .endOfInput) := by
    rw [← List.map_append, List.take_append_drop, kindsToEnd]
  rw [hsplit, List.takeWhile_append]
  split
  · exact (List.takeWhile_prefix _).trans (List.prefix_append _ _)
  · exact List.prefix_rfl

theorem closeInput_cases (tokens : List Token) : ∃ u last, last.kind = .endOfInput ∧
    closeInput tokens = u ++ [last] ∧ (tokens = u ∨ tokens = u ++ [last]) := by
  unfold closeInput
  cases h : tokens.getLast? with
  | none => exact ⟨[], _, rfl, rfl, .inl (List.getLast?_eq_none_iff.1 h)⟩
  | some last =>
      dsimp only
      split
      · rename_i hlast
        obtain ⟨u, hu⟩ := List.getLast?_eq_some_iff.1 h
        exact ⟨u, last, hlast, hu, .inr hu⟩
      · exact ⟨tokens, _, rfl, rfl, .inl rfl⟩

theorem cut_ofTokens_take (tokens : List Token) (n : Nat) :
    (Cursor.ofTokens (tokens.take n)).Cut (Cursor.ofTokens tokens) := by
  obtain ⟨u, last, hlast, hu, htake⟩ := closeInput_cases (tokens.take n)
  obtain ⟨v, last', hlast', hv, htokens⟩ := closeInput_cases tokens
  have hsplit := List.take_append_drop n tokens
  have hmore : ∃ more, closeInput tokens = u ++ more ∧ more ≠ [] := by
    rcases htake with htake | htake
    · rw [htake] at hsplit
      rcases htokens with htokens | htokens
      · exact ⟨tokens.drop n ++ [last'], by rw [hv, ← htokens, ← List.append_assoc, hsplit],
          by simp⟩
      · refine ⟨tokens.drop n, by rw [hv, ← htokens, hsplit], fun hnil => ?_⟩
        rw [hnil, List.append_nil] at hsplit
        rw [htake, hsplit, hv, ← htokens, ← hsplit] at hu
        simpa using congrArg List.length hu
    · rw [htake, List.append_assoc] at hsplit
      rcases htokens with htokens | htokens
      · exact ⟨[last] ++ tokens.drop n ++ [last'],
          by rw [hv, ← htokens, ← List.append_assoc, hsplit], by simp⟩
      · exact ⟨[last] ++ tokens.drop n, by rw [hv, ← htokens, hsplit], by simp⟩
  obtain ⟨more, hmore, hne⟩ := hmore
  cases u with
  | nil =>
      have hahead := Cursor.ahead_ofTokens (tokens.take n)
      rw [hu] at hahead
      exact .inl ((List.cons.inj hahead).1 ▸ hlast)
  | cons t u =>
      refine .inr ⟨by simp [Cursor.depth_ofTokens], t :: u, last, [], more, by simp, ?_, hlast, ?_,
        hne⟩
      · rw [Cursor.ahead_ofTokens, hu]
      · rw [Cursor.ahead_ofTokens, hmore]

theorem exists_reads_of_error {limits : Limits} {tokens : List Token} {e : SyntaxError}
    {c : Cursor} (h : Parser.program limits (Cursor.ofTokens tokens) = .error e c) :
    ∃ u d, (Cursor.ofTokens tokens).Reads u d ∧ c.current = d.current ∧ c.index = u.length ∧
      c.tokens = closeInput tokens ∧ (e.cause.isLimit = false → e.token = some c.current ∧
        (∃ v, Derives .program v ∧ u.map Token.kind <+: v) ∧
        ¬∃ v, Derives .program v ∧
          u.map Token.kind ++ [c.current.kind] <+: v ++ [.endOfInput]) := by
  have hruns := Parser.runs_program limits (fun h : False => h.elim) (Cursor.closed_ofTokens tokens)
  obtain ⟨u, d, hu, hstops, -, hsentence⟩ := hruns.of_error h
  obtain ⟨hbefore, hahead⟩ := hstops.same
  have hcurrent : c.current = d.current := (List.cons.inj hahead).1
  refine ⟨u, d, hu, hcurrent, ?_, ?_, fun hlimit => ⟨?_, hcurrent ▸ hsentence hlimit⟩⟩
  · rw [Cursor.index, hbefore, ← Cursor.index, hu.index, Cursor.index, Cursor.before_ofTokens,
      List.length_nil, Nat.zero_add]
  · have htokens : c.tokens = d.tokens := by
      change c.before.reverse ++ c.ahead = d.before.reverse ++ d.ahead
      rw [hbefore, hahead]
    rw [htokens, hu.tokens, Cursor.tokens_ofTokens]
  · obtain ⟨cause, t⟩ := e
    cases cause with
    | unexpected message => exact hcurrent ▸ hstops.2
    | tooDeep limit | tooHigh limit => cases hlimit
    | exhausted => exact hstops.elim

/-- A truncation of an accepted list that is refused is refused at its end. -/
theorem current_of_refused_take {limits : Limits} {tokens : List Token} {p : Program}
    {d : Cursor} (hp : Parser.program limits (Cursor.ofTokens tokens) = .ok p d) {n : Nat}
    {e : SyntaxError} {c : Cursor}
    (he : Parser.program limits (Cursor.ofTokens (tokens.take n)) = .error e c) :
    e.token = some c.current ∧ c.current.kind = .endOfInput := by
  obtain ⟨u, d, hu, hcurrent, -, -, hsentence⟩ := exists_reads_of_error he
  have hatEnd : e.AtEnd c :=
    (Parser.keeps_program (cut_ofTokens_take tokens n) p _ hp).of_error he
  rcases hatEnd with hlimit | hend
  · obtain ⟨htoken, -, hnone⟩ := hsentence hlimit
    refine ⟨htoken, ?_⟩
    rcases List.prefix_concat_iff.1 (concat_prefix_of_reads hu) with heq | hpre
    · exact hcurrent ▸ (List.append_inj_right' heq rfl |> List.cons.inj).1
    · refine absurd ⟨_, derives_of_ok hp, ?_⟩ hnone
      rw [hcurrent]
      exact (hpre.trans (kindsToEnd_take_isPrefix tokens n)).trans (List.prefix_append _ _)
  · exact hend

/-- An error that is no exceeded limit stands at the first token that no sentence goes on with, the
end of the input standing for the end of the sentence.  A truncation of an accepted list is accepted
under the same limits, or it is refused at its end. -/
theorem refused_at_first_impossible (limits : Limits) (tokens : List Token) :
    (∀ e c, Parser.program limits (Cursor.ofTokens tokens) = .error e c →
      e.cause.isLimit = false →
        c.tokens = closeInput tokens ∧ e.token = some c.current ∧
          (∃ v, Derives .program v ∧ (closedKinds tokens).take c.index <+: v) ∧
          ¬∃ v, Derives .program v ∧
            (closedKinds tokens).take (c.index + 1) <+: v ++ [.endOfInput]) ∧
      ((∃ p, Program.ofTokens limits tokens = .ok p) → ∀ n,
        (∃ p, Program.ofTokens limits (tokens.take n) = .ok p) ∨
          ∃ e c, Parser.program limits (Cursor.ofTokens (tokens.take n)) = .error e c ∧
            e.token = some c.current ∧ c.current.kind = .endOfInput ∧
              c.index = (kindsToEnd (tokens.take n)).length) := by
  constructor
  · intro e c hrun hlimit
    obtain ⟨u, d, hu, hcurrent, hindex, htokens, hsentence⟩ := exists_reads_of_error hrun
    obtain ⟨htoken, hsome, hnone⟩ := hsentence hlimit
    have hkinds : closedKinds tokens = u.map Token.kind ++ [c.current.kind] ++
        d.after.map Token.kind := by
      rw [← kinds_ofTokens, hu.kinds, d.kinds_eq_cons, hcurrent, List.append_cons]
    have htake : (closedKinds tokens).take c.index = u.map Token.kind := by
      rw [hkinds, List.append_assoc, List.take_left' (by rw [hindex, List.length_map])]
    have htake' : (closedKinds tokens).take (c.index + 1) =
        u.map Token.kind ++ [c.current.kind] := by
      rw [hkinds, List.take_left' (by simp [hindex])]
    rw [htake, htake']
    exact ⟨htokens, htoken, hsome, hnone⟩
  · rintro ⟨p, hp⟩ n
    cases hfull : Parser.program limits (Cursor.ofTokens tokens) with
    | error e d => simp [Program.ofTokens, hfull] at hp
    | ok p d =>
        cases hrun : Parser.program limits (Cursor.ofTokens (tokens.take n)) with
        | ok q c => exact .inl ⟨q, by rw [Program.ofTokens, hrun]⟩
        | error e c =>
            obtain ⟨htoken, hend⟩ := current_of_refused_take hfull hrun
            obtain ⟨u, d, hu, hcurrent, hindex, -, -⟩ := exists_reads_of_error hrun
            have hpre := concat_prefix_of_reads hu
            rw [← hcurrent, hend] at hpre
            have hkinds : u.map Token.kind = kindsToEnd (tokens.take n) :=
              eq_of_concat_prefix_concat hpre (endOfInput_notMem_kindsToEnd _)
            exact .inr ⟨e, c, rfl, htoken, hend, by rw [hindex, ← hkinds, List.length_map]⟩

theorem refused_behind_name :
    (¬∃ v, Derives .program v ∧ [.keyword .int, .name, .name] <+: v ++ [.endOfInput]) ∧
      ((∃ p, Program.ofTokens {} [⟨.keyword .int "int", .start⟩, ⟨.name "x", ⟨1, 5⟩⟩] = .ok p) ∨
        ∃ e c, Parser.program {}
          (Cursor.ofTokens [⟨.keyword .int "int", .start⟩, ⟨.name "x", ⟨1, 5⟩⟩]) = .error e c ∧
            e.token = some c.current ∧ c.current.kind = .endOfInput ∧ c.index = 2) :=
  ⟨((refused_at_first_impossible {} [⟨.keyword .int "int", .start⟩, ⟨.name "x", ⟨1, 5⟩⟩,
      ⟨.name "y", ⟨1, 7⟩⟩]).1 _ _ rfl rfl).2.2.2,
    (refused_at_first_impossible {} [⟨.keyword .int "int", .start⟩, ⟨.name "x", ⟨1, 5⟩⟩,
      ⟨.symbol .semicolon ";", ⟨1, 6⟩⟩]).2 ⟨_, rfl⟩ 2⟩

end Cmm

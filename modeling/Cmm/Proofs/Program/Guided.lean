import Cmm.Parser.Program
import Cmm.Proofs.Expr.Guided

/-!
# Programs are read as the grammar says

The goals for a declaration or a statement are those of its first token; where the parser looks
further ahead, both kinds of goals that may be meant meet the tokens up to there in the same way.
-/

namespace Cmm.Parser

open Goal

variable {roomy : Prop} {limits : Limits} {steps : Nat} {c : Cursor}

/-! ## Repetitions -/

theorem next_many {many one : Goal} {r : Kind → Option (List Goal)} {close k : Kind}
    (hmany : ∀ k, many.take? k = (r k).map (· ++ [many])) (hone : ∀ k, one.take? k = r k)
    (ho : many.isOptional = true) (ho' : one.isOptional = false) (hk : k ≠ close)
    (goals : List Goal) :
    next (many :: .token close :: goals) k = next (one :: many :: .token close :: goals) k := by
  cases hrest : r k with
  | none =>
      have hmany : many.take? k = none := by simp [hmany, hrest]
      have hone : one.take? k = none := by simp [hone, hrest]
      rw [next_drop hmany ho, next_token_of_ne hk, next_refuse hone ho']
  | some rest =>
      have hmany : many.take? k = some (rest ++ [many]) := by simp [hmany, hrest]
      have hone : one.take? k = some rest := by simp [hone, hrest]
      rw [next_of_take? hmany, next_of_take? hone, List.append_assoc]
      rfl

/-! ## Types and variables -/

theorem guided_semicolon (c : Cursor) (message : String) :
    Guided roomy c 1 [sign .semicolon] (semicolon message) [] :=
  .expect (by simp) fun _ _ => .pure

theorem guided_primitive {front m : List Goal}
    (htake : ∀ (t : Primitive) (goals : List Goal),
      next (front ++ goals) (.keyword t.keyword) = some (m ++ goals))
    (hfail : Primitive.ofKind? c.current.kind = none →
      ∀ goals, next (front ++ goals) c.current.kind = none) :
    Guided roomy c 1 front primitive m := by
  cases h : Primitive.ofKind? c.current.kind with
  | none =>
      refine .current ?_
      rw [h]
      exact .fail (hfail h)
  | some t =>
      have hk : c.current.kind = .keyword t.keyword := Primitive.eq_keyword_of_ofKind? h
      refine .current ?_
      rw [h]
      exact .advance (by simp [hk]) (fun goals => hk ▸ htake t goals) fun d _ => .pure

theorem isSome_varDeclRest? (k : Kind) :
    (varDeclRest? k).isSome = ((Primitive.ofKind? k).isSome || decide (k = .keyword .struct)) := by
  by_cases h : k = .keyword .struct
  · subst h
    rfl
  · have hrest : varDeclRest? k =
        if (Primitive.ofKind? k).isSome then some [.name, sign .semicolon] else none := by
      unfold varDeclRest?
      split <;> simp_all
    rw [hrest]
    split <;> simp_all

theorem guided_variableDecl (c : Cursor) : Guided roomy c 1 [.varDecl] variableDecl [] := by
  have hclose : ∀ (d : Cursor) (type : VariableType),
      Guided roomy d 0 [.name, sign .semicolon] (do
        let id ← name "Expected identifier"
        semicolon "Expected ';' after declaration"
        return (⟨type, id, c.current.position⟩ : VariableDecl)) [] := by
    intro d type
    refine .bind ((guided_name d _).frame [sign .semicolon]) fun id u e _ _ => ?_
    exact .bind (guided_semicolon e _) fun _ v e' _ _ => .pure
  refine .current (.accept (m := [.name, .name, sign .semicolon]) (by simp) (fun goals => rfl)
    (fun d _ => ?_) fun hstruct => ?_)
  · refine .bind ((guided_name d _).frame [.name, sign .semicolon]).map fun type u e _ _ => ?_
    exact hclose e type
  · have htype : Guided roomy c 1 [.varDecl] primitive [.name, sign .semicolon] := by
      refine guided_primitive (fun t goals => by cases t <;> rfl) fun hk goals => ?_
      have hnone : varDeclRest? c.current.kind = none := by
        have := isSome_varDeclRest? c.current.kind
        simpa [hk, hstruct] using this
      have htake : take? .varDecl c.current.kind = none := hnone
      exact next_refuse htake rfl goals
    refine .bind htype.map fun type u e _ _ => ?_
    exact hclose e type

theorem Guided.atVariable {α : Type} {f : Bool → Parser α} {i : Nat} {front back : List Goal}
    (hyes : (varDeclRest? c.current.kind).isSome = true → Guided roomy c i front (f true) back)
    (hno : varDeclRest? c.current.kind = none → Guided roomy c i front (f false) back) :
    Guided roomy c i front (atVariable >>= f) back := by
  have hrun : Guided roomy c i front (f (varDeclRest? c.current.kind).isSome) back := by
    cases h : varDeclRest? c.current.kind with
    | none => exact hno h
    | some rest => exact hyes (by simp [h])
  rw [isSome_varDeclRest?] at hrun
  exact hrun

theorem guided_variableDeclsIn (hsteps : c.after.length < steps) :
    Guided roomy c 0 [.varDecls] (variableDeclsIn steps) [] := by
  induction steps generalizing c with
  | zero => omega
  | succ steps ih =>
      refine .atVariable (fun h => ?_) fun h => ?_
      · obtain ⟨rest, hrest⟩ := Option.isSome_iff_exists.1 h
        refine .of_next (m := [.varDecl, .varDecls]) (fun goals => ?_) ?_
        · have hmany : take? .varDecls c.current.kind = some (rest ++ [.varDecls]) := by
            simp [take?, hrest]
          have hone : take? .varDecl c.current.kind = some rest := hrest
          rw [List.singleton_append, next_of_take? hmany, List.append_assoc]
          exact (next_of_take? hone _).symm
        · refine .bind ((guided_variableDecl c).frame [.varDecls]) fun first u d hu hi => ?_
          have hlength := hu.length
          exact .bind (ih (by omega)) fun rest v e _ _ => .pure
      · exact .pure_of fun goals => next_drop (by simp [take?, h]) rfl goals

theorem guided_variableDecls (c : Cursor) : Guided roomy c 0 [.varDecls] variableDecls [] :=
  .current (.bind (.measured (guided_variableDeclsIn (by omega))) fun _ _ _ _ _ => .pure)

/-! ## Structs -/

theorem guided_field (c : Cursor) : Guided roomy c 1 [.varDecl] field [] :=
  .atVariable (fun _ => guided_variableDecl c) fun h =>
    have htake : take? .varDecl c.current.kind = none := h
    .fail fun goals => next_refuse htake rfl goals

theorem guided_fieldsIn (hsteps : c.after.length < steps) :
    Guided roomy c 0 [.varDecls, sign .rightCurly] (fieldsIn steps) [sign .rightCurly] := by
  induction steps generalizing c with
  | zero => omega
  | succ steps ih =>
      refine .at? ?_
      split
      · rename_i hclose
        have hclose : c.current.kind = .symbol .rightCurly := by simpa using hclose
        exact .pure_of fun goals => by rw [hclose]; rfl
      · rename_i hclose
        have hclose : c.current.kind ≠ .symbol .rightCurly := by simpa using hclose
        refine .of_next (m := [.varDecl, .varDecls, sign .rightCurly])
          (fun goals => next_many (fun _ => rfl) (fun _ => rfl) rfl rfl
            hclose goals) ?_
        refine .bind ((guided_field c).frame [.varDecls, sign .rightCurly]) fun first u d hu hi => ?_
        have hlength := hu.length
        exact .bind (ih (by omega)) fun rest v e _ _ => .pure

theorem guided_structDecl (c : Cursor) :
    Guided roomy c 1 [.token (.keyword .struct), .name, sign .leftCurly, .varDecl, .varDecls,
      sign .rightCurly, sign .semicolon] structDecl [] := by
  refine .expect (by simp) fun d _ => ?_
  refine .bind ((guided_name d _).frame [sign .leftCurly, .varDecl, .varDecls, sign .rightCurly,
    sign .semicolon]) fun id u e _ _ => ?_
  refine .expect (by simp) fun d _ => ?_
  refine .bind ((guided_field d).frame [.varDecls, sign .rightCurly, sign .semicolon]) ?_
  intro first u e _ _
  refine .bind ((Guided.measured (guided_fieldsIn (by omega))).frame [sign .semicolon]) ?_
  intro more v d _ _
  refine .expect (by simp) fun e _ => ?_
  exact .bind (guided_semicolon e _) fun _ _ _ _ _ => .pure

/-! ## Formal parameters -/

theorem guided_type (c : Cursor) : Guided roomy c 1 [.type] primitive [] := by
  refine guided_primitive (fun t goals => by cases t <;> rfl) fun hk goals => ?_
  have htake : take? .type c.current.kind = none := by simp [take?, hk]
  exact next_refuse htake rfl goals

theorem guided_formal (c : Cursor) : Guided roomy c 1 [.type, .name] formal [] := by
  refine .current (.bind ((guided_type c).frame [.name]) fun type u d _ _ => ?_)
  exact .bind (guided_name d _) fun _ _ _ _ _ => .pure

theorem guided_formalsIn (hsteps : c.after.length < steps) :
    Guided roomy c 1 [.type, .name, .moreFormals] (formalsIn steps) [] := by
  induction steps generalizing c with
  | zero => omega
  | succ steps ih =>
      refine .bind ((guided_formal c).frame [.moreFormals]) fun first u d hu hi => ?_
      have hlength := hu.length
      refine .accept (m := [.type, .name, .moreFormals]) (by simp) (fun goals => rfl) ?_ ?_
      · intro d' hd'
        have hlength' := hd'.length
        exact .bind (ih (by omega)) fun rest v e _ _ => .pure
      · intro hcomma
        exact .pure_of fun goals => next_drop (by simp [take?, hcomma]) rfl goals

theorem next_formals {k : Kind} (h : k ≠ .symbol .rightParen) (goals : List Goal) :
    next (.formals :: sign .rightParen :: goals) k =
      next (.type :: .name :: .moreFormals :: sign .rightParen :: goals) k := by
  cases htype : (Primitive.ofKind? k).isSome with
  | false => simp [next, take?, htype, isOptional, h]
  | true => simp [next, take?, htype]

theorem guided_formals (c : Cursor) :
    Guided roomy c 2 [sign .leftParen, .formals, sign .rightParen] formals [] := by
  refine .expect (by simp) fun d _ => .at? (.ite_bind ?_)
  have hitems : Guided roomy d 0 [.formals, sign .rightParen]
      (if decide (d.current.kind = .symbol .rightParen) = true then Pure.pure []
        else measured formalsIn) [sign .rightParen] := by
    split
    · rename_i hclose
      refine .pure_of fun goals => ?_
      rw [of_decide_eq_true hclose]
      rfl
    · rename_i hclose
      refine .of_next (m := [.type, .name, .moreFormals, sign .rightParen])
        (fun goals => next_formals (by simpa using hclose) goals) ?_
      exact ((Guided.measured (guided_formalsIn (by omega))).frame _).weaken (by omega)
  refine .bind hitems fun items u e _ _ => ?_
  exact .expect (by simp) fun d _ => .pure

/-! ## Statements -/

theorem guided_condition (keyword : String) (hroom : roomy → limits.Room c 0) :
    Guided roomy c 3 [sign .leftParen, .exp, sign .rightParen] (condition limits keyword) [] := by
  refine .expect (by simp) fun d hd => ?_
  have hlength := hd.length
  have hdepth := hd.depth
  simp only [List.length_singleton] at hlength
  have hexp : Guided roomy d 1 [.exp] (expression limits) [] := guided_expression fun hr => by
    have := hroom hr
    simp only [Limits.Room] at this ⊢
    omega
  refine .bind (hexp.frame [sign .rightParen]) fun e u d' _ _ => ?_
  exact .expect (by simp) fun d'' _ => .pure

theorem guided_conditional {α : Type} (c : Cursor) (keyword : String) {rest : List Goal}
    {f : Expr → Parser α} (hroom : roomy → limits.Room c 0)
    (hf : ∀ e d, d.after.length < c.after.length → (roomy → limits.Room d 0) →
      Guided roomy d 0 rest (f e) []) :
    Guided roomy c 0 ([sign .leftParen, .exp, sign .rightParen] ++ rest)
      (condition limits keyword >>= f) [] := by
  refine .bind ((guided_condition keyword hroom).frame rest) fun e u d hu hi => ?_
  have hlength := hu.length
  have hdepth := hu.depth
  refine hf e d (by omega) fun hr => ?_
  have := hroom hr
  simp only [Limits.Room] at this ⊢
  omega

theorem next_afterStmtName {k : Kind} (h : k ≠ .symbol .leftParen) (goals : List Goal) :
    next (.afterStmtName :: goals) k = next (.fields :: .update :: goals) k := by
  by_cases hdot : k = .symbol .dot
  · subst hdot
    rfl
  · have htake : take? .afterStmtName k = take? .update k := by
      simp only [take?]
    calc
      next (.afterStmtName :: goals) k = next (.update :: goals) k := by
        simp [next, htake, isOptional]
      _ = next (.fields :: .update :: goals) k :=
        (next_drop (by simp [take?, hdot]) rfl _).symm

theorem guided_nameStatement (hname : c.current.kind = .name) (hroom : roomy → limits.Room c 0) :
    Guided roomy c 1 [.stmt] (nameStatement limits) [] := by
  refine .current (.get ?_)
  split
  · rename_i hparen
    refine .of_leftover (leftover_call (r := [sign .semicolon]) hname hparen (fun goals => rfl)
      fun goals => rfl) ?_
    have hcall : Guided roomy c 3 [.name, sign .leftParen, .arguments, sign .rightParen]
        (call limits) [] := .measured ((exprGuided roomy limits _).call c (by omega) hroom)
    refine .bind (hcall.frame [sign .semicolon]) fun e u d _ _ => ?_
    exact .bind (guided_semicolon d _) fun _ _ _ _ _ => .pure
  · rename_i hparen
    refine .of_leftover (m := [.name, .fields, .update]) (leftover_location hname hparen
      (fun goals => rfl) fun k hk goals => next_afterStmtName hk goals) ?_
    refine ((guided_location hroom).frame [.update]).bind_of (yields_height_location c) ?_
    intro l u d hu hi hheight
    have hlength := hu.length
    have hdepth := hu.depth
    refine .at? ?_
    split
    · rename_i hassign
      have hassign : d.current.kind = .symbol .assign := by simpa using hassign
      refine .of_next (m := [sign .assign, .exp, sign .semicolon])
        (fun goals => by rw [hassign]; rfl) ?_
      have hrhs : Guided roomy d 2 [sign .assign, .exp] (assignment limits l) [] := by
        refine .measured ((exprGuided roomy limits _).assignment d l (by omega) fun hr => ?_)
        have := hroom hr
        simp only [Limits.Room] at this ⊢
        omega
      refine .bind (hrhs.frame [sign .semicolon]) fun a v e _ _ => ?_
      exact .bind (guided_semicolon e _) fun _ _ _ _ _ => .pure
    · rename_i hassign
      refine .accept (m := [sign .semicolon]) (by simp) (fun goals => rfl)
        (fun e _ => .bind (guided_semicolon e _) fun _ _ _ _ _ => .pure) fun hplus => ?_
      refine .accept (m := [sign .semicolon]) (by simp) (fun goals => rfl)
        (fun e _ => .bind (guided_semicolon e _) fun _ _ _ _ _ => .pure) fun hminus => ?_
      have htake : take? .update d.current.kind = none := by
        have hassign : d.current.kind ≠ .symbol .assign := by simpa using hassign
        simp only [take?]
        unfold updateRest?
        split <;> simp_all
      exact .fail fun goals => next_refuse htake rfl goals

theorem next_returned {k : Kind} (h : k ≠ .symbol .semicolon) (goals : List Goal) :
    next (.returned :: sign .semicolon :: goals) k = next (.exp :: sign .semicolon :: goals) k := by
  cases hexp : expRest? k with
  | none => simp [next, take?, hexp, isOptional, h]
  | some rest => simp [next, take?, hexp]

/-- With enough steps, what is read as a block or a statement is what the reader of the grammar
takes. -/
structure StmtGuided (roomy : Prop) (limits : Limits) (steps : Nat) : Prop where
  block : ∀ c : Cursor, 4 * c.after.length + 1 ≤ steps → (roomy → limits.Room c 0) →
    Guided roomy c 1 Goal.block (blockIn limits steps) []
  statements : ∀ c : Cursor, 4 * c.after.length + 2 ≤ steps → (roomy → limits.Room c 0) →
    Guided roomy c 0 [.stmts, sign .rightCurly] (statementsIn limits steps) [sign .rightCurly]
  statement : ∀ c : Cursor, 4 * c.after.length + 1 ≤ steps → (roomy → limits.Room c 0) →
    Guided roomy c 1 [.stmt] (statementIn limits steps) []

namespace StmtGuided

variable (h : StmtGuided roomy limits steps)

include h

theorem guided_block (c : Cursor) (hsteps : 4 * c.after.length + 1 ≤ steps + 1)
    (hroom : roomy → limits.Room c 0) :
    Guided roomy c 1 Goal.block (blockIn limits (steps + 1)) [] := by
  refine .expect (by simp) fun d hd => .nested (fun hr => ?_) ?_
  · have := (hroom hr).1
    have hlength := hd.length
    have hdepth := hd.depth
    simp only [List.length_singleton] at hlength
    omega
  · have hlength := hd.length
    have hdepth := hd.depth
    simp only [List.length_singleton] at hlength
    refine .bind ((guided_variableDecls d.deeper).frame [.stmts, sign .rightCurly]) ?_
    intro decls u e hu _
    have hlength' := hu.length
    have hdepth' := hu.depth
    simp only [Cursor.after_deeper] at hlength'
    refine .current (.bind (h.statements e (by omega) fun hr => ?_) fun stmts v e' _ _ => ?_)
    · have := hroom hr
      simp only [Limits.Room, Cursor.deeper] at this hdepth' ⊢
      omega
    · exact .expect (by simp) fun d' _ => .pure

theorem guided_statements (c : Cursor) (hsteps : 4 * c.after.length + 2 ≤ steps + 1)
    (hroom : roomy → limits.Room c 0) :
    Guided roomy c 0 [.stmts, sign .rightCurly] (statementsIn limits (steps + 1))
      [sign .rightCurly] := by
  refine .at? ?_
  split
  · rename_i hclose
    have hclose : c.current.kind = .symbol .rightCurly := by simpa using hclose
    exact .pure_of fun goals => by rw [hclose]; rfl
  · rename_i hclose
    have hclose : c.current.kind ≠ .symbol .rightCurly := by simpa using hclose
    refine .of_next (m := [.stmt, .stmts, sign .rightCurly])
      (fun goals => next_many (fun _ => rfl) (fun _ => rfl) rfl rfl hclose goals) ?_
    refine .bind ((h.statement c (by omega) hroom).frame [.stmts, sign .rightCurly]) ?_
    intro first u d hu _
    have hlength := hu.length
    have hdepth := hu.depth
    refine .bind (h.statements d (by omega) fun hr => ?_) fun _ _ _ _ _ => .pure
    have := hroom hr
    simp only [Limits.Room] at this ⊢
    omega

theorem guided_statement (c : Cursor) (hsteps : 4 * c.after.length + 1 ≤ steps + 1)
    (hroom : roomy → limits.Room c 0) :
    Guided roomy c 1 [.stmt] (statementIn limits (steps + 1)) [] := by
  have room : ∀ {t d}, c.Reads [t] d → roomy → limits.Room d 1 := by
    intro t d hd hr
    have hlength := hd.length
    have hdepth := hd.depth
    have := hroom hr
    simp only [List.length_singleton] at hlength
    simp only [Limits.Room] at this ⊢
    omega
  have fails : ∀ message, stmtRest? c.current.kind = none →
      Guided roomy c 1 [.stmt] (fail message : Parser Stmt) [] := by
    intro message hnone
    have htake : take? .stmt c.current.kind = none := hnone
    exact .fail fun goals => next_refuse htake rfl goals
  refine .current ?_
  split
  · rename_i hk
    exact fails _ (by rw [hk]; rfl)
  · rename_i hk
    exact fails _ (by rw [hk]; rfl)
  · rename_i hk
    exact fails _ (by rw [hk]; rfl)
  · rename_i hk
    exact fails _ (by rw [hk]; rfl)
  · rename_i hk
    refine .advance (m := [sign .read, .name, .fields, sign .semicolon]) (by simp [hk])
      (fun goals => by rw [hk]; rfl) fun d hd => .expect (by simp) fun d' hd' => ?_
    refine .bind ((guided_location fun hr => ?_).frame [sign .semicolon]) fun l u e _ _ => ?_
    · have := room hd hr
      have hlength := hd'.length
      have hdepth := hd'.depth
      simp only [Limits.Room] at this ⊢
      omega
    · exact .bind (guided_semicolon e _) fun _ _ _ _ _ => .pure
  · rename_i hk
    refine .advance (m := [sign .write, .exp, sign .semicolon]) (by simp [hk])
      (fun goals => by rw [hk]; rfl) fun d hd => .expect (by simp) fun d' hd' => ?_
    refine .bind ((guided_expression fun hr => ?_).frame [sign .semicolon]) fun e u d'' _ _ => ?_
    · have := room hd hr
      have hlength := hd'.length
      have hdepth := hd'.depth
      simp only [Limits.Room] at this ⊢
      omega
    · exact .bind (guided_semicolon d'' _) fun _ _ _ _ _ => .pure
  · rename_i hk
    refine .advance (m := [sign .leftParen, .exp, sign .rightParen] ++
      (Goal.block ++ [.elseBranch])) (by simp [hk]) (fun goals => by rw [hk]; rfl) fun d hd => ?_
    have hlength := hd.length
    refine guided_conditional d _ (fun hr => (room hd hr).weaken) fun e d' hd' hroom' => ?_
    refine .bind ((h.block d' (by omega) hroom').frame [.elseBranch]) fun b u d'' hu _ => ?_
    have hlength' := hu.length
    have hdepth' := hu.depth
    refine .accept (m := Goal.block) (by simp) (fun goals => rfl) ?_ fun helse => ?_
    · intro e' he'
      have hlength'' := he'.length
      have hdepth'' := he'.depth
      refine .bind (h.block e' (by omega) fun hr => ?_) fun _ _ _ _ _ => .pure
      have := hroom' hr
      simp only [Limits.Room] at this ⊢
      omega
    · exact .pure_of fun goals => next_drop (by simp [take?, helse]) rfl goals
  · rename_i hk
    refine .advance (m := [sign .leftParen, .exp, sign .rightParen] ++ Goal.block)
      (by simp [hk]) (fun goals => by rw [hk]; rfl) fun d hd => ?_
    have hlength := hd.length
    refine guided_conditional d _ (fun hr => (room hd hr).weaken) fun e d' hd' hroom' => ?_
    exact .bind (h.block d' (by omega) hroom') fun _ _ _ _ _ => .pure
  · rename_i hk
    refine .advance (m := [sign .leftParen, .exp, sign .rightParen] ++ Goal.block)
      (by simp [hk]) (fun goals => by rw [hk]; rfl) fun d hd => ?_
    have hlength := hd.length
    refine guided_conditional d _ (fun hr => (room hd hr).weaken) fun e d' hd' hroom' => ?_
    exact .bind (h.block d' (by omega) hroom') fun _ _ _ _ _ => .pure
  · rename_i hk
    refine .advance (m := [.returned, sign .semicolon]) (by simp [hk])
      (fun goals => by rw [hk]; rfl) fun d hd => ?_
    refine .accept (m := []) (by simp) (fun goals => rfl) (fun _ _ => .pure) fun hsemi => ?_
    refine .of_next (m := [.exp, sign .semicolon]) (fun goals => next_returned hsemi goals) ?_
    refine .bind ((guided_expression (room hd)).frame [sign .semicolon]) fun e u d' _ _ => ?_
    exact .bind (guided_semicolon d' _) fun _ _ _ _ _ => .pure
  · rename_i hk
    exact guided_nameStatement hk hroom
  · refine fails _ ?_
    unfold stmtRest?
    split <;> simp_all

theorem succ : StmtGuided roomy limits (steps + 1) where
  block := h.guided_block
  statements := h.guided_statements
  statement := h.guided_statement

end StmtGuided

theorem stmtGuided (roomy : Prop) (limits : Limits) (steps : Nat) :
    StmtGuided roomy limits steps := by
  induction steps with
  | zero =>
      constructor <;> intros <;> omega
  | succ steps ih => exact ih.succ

/-! ## Declarations -/

theorem next_afterDeclName {k : Kind} (h : k ≠ .symbol .leftParen) (goals : List Goal) :
    next (.afterDeclName :: goals) k = next (sign .semicolon :: goals) k := by
  by_cases hsemi : k = .symbol .semicolon
  · subst hsemi
    rfl
  · have htake : take? .afterDeclName k = none := by
      simp only [take?]
    rw [next_refuse htake rfl, next_token_of_ne hsemi]

theorem next_afterStructName {k : Kind} (h : k ≠ .symbol .leftCurly) (goals : List Goal) :
    next (.afterStructName :: goals) k = next (.name :: sign .semicolon :: goals) k := by
  by_cases hname : k = .name
  · subst hname
    rfl
  · have htake : take? .afterStructName k = none := by
      simp only [take?]
    rw [next_refuse htake rfl, next_token_of_ne hname]

theorem leftover_struct {front r : List Goal} (hstruct : c.current.kind = .keyword .struct)
    (hfront : ∀ goals, next (front ++ goals) (.keyword .struct) = some (.name :: (r ++ goals)))
    (hrest : ∀ k, c.kindAhead? 2 = some k →
      ∀ goals, next (.afterStructName :: goals) k = next (r ++ goals) k) (goals : List Goal) :
    leftover ([.decl] ++ goals) c.kinds = leftover (front ++ goals) c.kinds := by
  have hdecl : next ([.decl] ++ goals) (.keyword .struct) =
      some (.name :: .afterStructName :: goals) := rfl
  rw [Cursor.kinds_eq_cons, hstruct, leftover_of_next hdecl, leftover_of_next (hfront goals)]
  cases hafter : c.after with
  | nil => simp
  | cons t ts =>
      rw [List.map_cons]
      by_cases ht : t.kind = .name
      · have htake : ∀ goals, next (.name :: goals) t.kind = some goals := by
          intro goals
          rw [ht]
          rfl
        rw [leftover_of_next (htake _), leftover_of_next (htake _)]
        cases ts with
        | nil => simp
        | cons t' ts =>
            have hk : c.kindAhead? 2 = some t'.kind := by simp [Cursor.kindAhead?, hafter]
            exact leftover_congr (hrest _ hk goals) _
      · rw [leftover_of_next_eq_none (next_token_of_ne ht _),
          leftover_of_next_eq_none (next_token_of_ne ht _)]

theorem guided_body (hroom : roomy → limits.Room c 0) :
    Guided roomy c 1 Goal.block (body limits) [] := by
  have hblock : Guided roomy c 1 Goal.block (block limits) [] :=
    .measured ((stmtGuided roomy limits _).block c (by omega) hroom)
  exact .current (.bind hblock fun _ _ _ _ _ => .pure)

theorem guided_primitiveDeclaration (hroom : roomy → limits.Room c 0)
    (htype : (Primitive.ofKind? c.current.kind).isSome = true) :
    Guided roomy c 1 [.decl] (primitiveDeclaration limits) [] := by
  have hprimitive : Guided roomy c 1 [.decl] primitive [.name, .afterDeclName] :=
    guided_primitive (fun t goals => by cases t <;> rfl) fun hnone => by simp [hnone] at htype
  refine .current (.bind hprimitive fun type u d hu _ => ?_)
  refine .bind ((guided_name d _).frame [.afterDeclName]) fun id v d' hv _ => .at? ?_
  have hlength := hu.length
  have hlength' := hv.length
  have hdepth := hu.depth
  have hdepth' := hv.depth
  split
  · rename_i hparen
    have hparen : d'.current.kind = .symbol .leftParen := by simpa using hparen
    refine .of_next (m := [sign .leftParen, .formals, sign .rightParen] ++ Goal.block)
      (fun goals => by rw [hparen]; rfl) ?_
    refine .bind ((guided_formals d').frame Goal.block) fun params w e hw _ => ?_
    have hlength'' := hw.length
    have hdepth'' := hw.depth
    refine .bind (guided_body fun hr => ?_) fun _ _ _ _ _ => .pure
    have := hroom hr
    simp only [Limits.Room] at this ⊢
    omega
  · rename_i hparen
    have hparen : d'.current.kind ≠ .symbol .leftParen := by simpa using hparen
    refine .of_next (m := [sign .semicolon]) (fun goals => next_afterDeclName hparen goals) ?_
    exact .bind (guided_semicolon d' _) fun _ _ _ _ _ => .pure

theorem guided_declaration (hroom : roomy → limits.Room c 0) :
    Guided roomy c 1 [.decl] (declaration limits) [] := by
  refine .at? ?_
  split
  · rename_i hstruct
    have hstruct : c.current.kind = .keyword .struct := by simpa using hstruct
    refine .get ?_
    split
    · rename_i hcurly
      refine .of_leftover (m := [.token (.keyword .struct), .name, sign .leftCurly, .varDecl,
        .varDecls, sign .rightCurly, sign .semicolon])
        (leftover_struct hstruct (fun goals => rfl) ?_) ?_
      · rintro k hk goals
        obtain rfl := Option.some.inj (hk.symm.trans hcurly)
        rfl
      · exact .bind (guided_structDecl c) fun _ _ _ _ _ => .pure
    · rename_i hcurly
      refine .of_leftover (m := [.varDecl])
        (leftover_struct (r := [.name, sign .semicolon]) hstruct (fun goals => rfl) ?_) ?_
      · exact fun k hk goals => next_afterStructName (fun h => hcurly (hk.trans (h ▸ rfl))) goals
      · exact .bind (guided_variableDecl c) fun _ _ _ _ _ => .pure
  · rename_i hstruct
    have hstruct : c.current.kind ≠ .keyword .struct := by simpa using hstruct
    change Guided roomy c 1 _
      (if (Primitive.ofKind? c.current.kind).isSome = true then _ else _) _
    split
    · rename_i htype
      exact guided_primitiveDeclaration hroom htype
    · rename_i htype
      have hnone : take? .decl c.current.kind = none := by
        simp only [take?]
        unfold declRest?
        split <;> simp_all
      exact .fail fun goals => next_refuse hnone rfl goals

theorem guided_declarationsIn (hsteps : c.after.length < steps)
    (hroom : roomy → limits.Room c 0) :
    Guided roomy c 0 [.decls, .token .endOfInput] (declarationsIn limits steps)
      [.token .endOfInput] := by
  induction steps generalizing c with
  | zero => omega
  | succ steps ih =>
      refine .at? ?_
      split
      · rename_i hend
        have hend : c.current.kind = .endOfInput := by simpa using hend
        exact .pure_of fun goals => by rw [hend]; rfl
      · rename_i hend
        have hend : c.current.kind ≠ .endOfInput := by simpa using hend
        refine .of_next (m := [.decl, .decls, .token .endOfInput])
          (fun goals => next_many (fun _ => rfl) (fun _ => rfl) rfl rfl hend goals) ?_
        refine .bind ((guided_declaration hroom).frame [.decls, .token .endOfInput]) ?_
        intro first u d hu _
        have hlength := hu.length
        have hdepth := hu.depth
        refine .bind (ih (by omega) fun hr => ?_) fun _ _ _ _ _ => .pure
        have := hroom hr
        simp only [Limits.Room] at this ⊢
        omega

theorem yields_declarationsIn (c : Cursor) :
    Yields c (declarationsIn limits steps) fun _ _ d => d.current.kind = .endOfInput := by
  induction steps generalizing c with
  | zero => exact .exhausted trivial
  | succ steps ih =>
      refine .at? ?_
      split
      · rename_i hend
        exact .pure (by simpa using hend)
      · have hguided : Guided False c 1 [.decl] (declaration limits) [] := guided_declaration nofun
        have hany : Yields c (declaration limits) fun _ _ _ => True :=
          hguided.yields fun _ _ _ _ _ => trivial
        exact .bind hany fun first u d _ _ => .bind (ih d) fun rest v e _ hend => .pure hend

theorem guided_program (hroom : roomy → limits.Room c 0) :
    Guided roomy c 0 start (program limits) [.token .endOfInput] :=
  .current (.bind (.measured (guided_declarationsIn (by omega) hroom)) fun _ _ _ _ _ => .pure)

end Cmm.Parser

import Cmm.Proofs.Expr.Compared
import Cmm.Proofs.Program.Truncated

/-!
# Programs from paired tokens

Which declarations and statements there are depends on the kinds of the tokens only.  A declaration
ends with a token of its own, so what is behind it does not matter.
-/

namespace Cmm

open Node

/-! ## What is built -/

instance : Built Primitive := ⟨fun _ type type' => type = type', fun _ _ => rfl⟩

instance : Built VariableType where
  Alike P type type' := type.size = type'.size ∧
    ∀ p q, Token.Placed P p q → Alike P (type.toNode p) (type'.toNode q)
  alike_refl hP type := by
    refine ⟨rfl, fun p q hp => ?_⟩
    cases type with
    | primitive type => exact .primitive type hp
    | struct id => exact .structType (alike_refl hP id.toNode) hp

instance : Built VariableDecl := builtByTree VariableDecl.toNode

instance : Built VariableDecls := builtByTree VariableDecls.toNode

instance : Built StructDecl := builtByTree StructDecl.toNode

instance : Built Formal := builtByTree Formal.toNode

instance : Built Formals := builtByTree Formals.toNode

instance : Built Stmt := builtByTree Stmt.toNode

instance : Built Block where
  Alike P b b' := Alike P b.declsNode b'.declsNode ∧ Alike P b.stmtsNode b'.stmtsNode
  alike_refl hP b := ⟨alike_refl hP b.declsNode, alike_refl hP b.stmtsNode⟩

instance : Built Body := builtByTree Body.toNode

instance : Built Decl := builtByTree Decl.toNode

instance : Built Program := builtByTree Program.toNode

theorem allAlike_map {α : Type} {toNode : α → Node} {P : Token → Token → Prop} {as bs : List α}
    (h : List.Forall₂ (fun a b => Alike P (toNode a) (toNode b)) as bs) :
    AllAlike P (as.map toNode) (bs.map toNode) := by
  rwa [AllAlike, List.forall₂_map_left_iff, List.forall₂_map_right_iff]

namespace Parser

variable {S : Overlap} {limits : Limits} {m n : Nat} {c d : Cursor}

/-! ## Variables -/

theorem agree_atPrimitive : Agree S 0 c d atPrimitive atPrimitive := by
  apply Agree.current
  intro u hu
  rw [← S.kind_eq hu]
  exact .pure rfl

theorem agree_atVariable : Agree S 0 c d atVariable atVariable := by
  apply Agree.bind agree_atPrimitive
  rintro b _ c₁ d₁ rfl
  exact .at? (.pure rfl)

theorem agree_primitive : Agree S 0 c d primitive primitive := by
  apply Agree.current
  intro u hu
  rw [← S.kind_eq hu]
  split
  · rename_i type htype
    exact .advance (by simp [Primitive.eq_keyword_of_ofKind? htype]) fun _ _ => .pure rfl
  · exact .fail

theorem agree_semicolon (message : String) :
    Agree S 1 c d (semicolon message) (semicolon message) :=
  .yield (.close (by simp)) fun _ _ _ => trivial

def variableBehind (p : Position) (type : VariableType) : Parser VariableDecl := do
  let id ← name "Expected identifier"
  semicolon "Expected ';' after declaration"
  return ⟨type, id, p⟩

theorem agree_variableBehind {p q : Position} (hp : Token.Placed S.Pairs p q)
    {type type' : VariableType} (htype : Built.Alike S.Pairs type type') :
    Agree S 1 c d (variableBehind p type) (variableBehind q type') := by
  apply Agree.bind (agree_name _)
  intro id id' c₁ d₁ hid
  apply Agree.yield (agree_semicolon _)
  intro _ _ _
  change Alike S.Pairs (.variableDecl (type.toNode p) id.toNode type.size p)
    (.variableDecl (type'.toNode q) id'.toNode type'.size q)
  rw [htype.1]
  exact .variableDecl _ (htype.2 p q hp) hid hp

def structVariable (p : Position) : Parser VariableDecl := do
  let id ← name "Expected struct name"
  variableBehind p (.struct id)

theorem agree_structVariable {p q : Position} (hp : Token.Placed S.Pairs p q) :
    Agree S 1 c d (structVariable p) (structVariable q) := by
  apply Agree.bind (agree_name _)
  intro id id' c₁ d₁ hid
  exact agree_variableBehind hp ⟨rfl, fun p q hp => .structType hid hp⟩

theorem variableDecl_eq : variableDecl = (do
    let p := (← current).position
    if ← accept (.keyword .struct) then structVariable p
    else variableBehind p (.primitive (← primitive))) := by
  simp only [variableDecl, structVariable, variableBehind, bind_map_left]

theorem agree_variableDecl : Agree S 1 c d variableDecl variableDecl := by
  rw [variableDecl_eq]
  apply Agree.current
  intro u hu
  have hp := S.placed hu
  apply Agree.accept (by simp)
  · intro c₁ d₁
    exact agree_structVariable hp
  · apply Agree.bind agree_primitive
    rintro type _ c₁ d₁ rfl
    exact agree_variableBehind hp ⟨rfl, fun p q hp => .primitive type hp⟩

theorem agree_variableDeclsIn : Agree S 0 c d (variableDeclsIn m) (variableDeclsIn n) := by
  induction m generalizing c d n with
  | zero => exact .exhausted
  | succ m ih =>
      refine .of_steps n rfl fun n => ?_
      apply Agree.bind agree_atVariable
      rintro b _ c₁ d₁ rfl
      split
      · apply Agree.bind agree_variableDecl
        intro first first' c₂ d₂ hfirst
        exact .yield ih fun _ _ hmore => .cons hfirst hmore
      · exact .pure List.Forall₂.nil

theorem agree_variableDecls : Agree S 0 c d variableDecls variableDecls := by
  apply Agree.current
  intro u hu
  apply Agree.yield (.measured fun _ _ => agree_variableDeclsIn)
  intro items items' hitems
  exact .list _ (allAlike_map hitems) (S.placed hu)

theorem agree_field : Agree S 1 c d field field := by
  apply Agree.bind agree_atVariable
  rintro b _ c₁ d₁ rfl
  split
  · exact agree_variableDecl
  · exact .fail

theorem agree_fieldsIn : Agree S 0 c d (fieldsIn m) (fieldsIn n) := by
  induction m generalizing c d n with
  | zero => exact .exhausted
  | succ m ih =>
      refine .of_steps n rfl fun n => ?_
      apply Agree.at?
      split
      · exact .pure List.Forall₂.nil
      · apply Agree.bind agree_field
        intro first first' c₁ d₁ hfirst
        exact .yield ih fun _ _ hmore => .cons hfirst hmore

def structBehind (p : Position) (id : Name) : Parser StructDecl := do
  let brace ← expect (.symbol .leftCurly) "Expected '\x7b' after struct name"
  let first ← field
  let more ← measured fieldsIn
  let _ ← expect (.symbol .rightCurly) "Expected '\x7d' after struct fields"
  semicolon "Expected ';' after struct declaration"
  return ⟨id, first, more, brace.position, p⟩

theorem agree_structBehind {p q : Position} (hp : Token.Placed S.Pairs p q) {id id' : Name}
    (hid : Built.Alike S.Pairs id id') :
    Agree S 1 c d (structBehind p id) (structBehind q id') := by
  apply Agree.expect (by simp)
  intro brace brace' c₁ d₁ hbrace
  apply Agree.bind agree_field
  intro first first' c₂ d₂ hfirst
  apply Agree.bind (.measured fun _ _ => agree_fieldsIn)
  intro more more' c₃ d₃ hmore
  apply Agree.expect (by simp)
  intro _ _ c₄ d₄ _
  apply Agree.yield (agree_semicolon _)
  intro _ _ _
  exact .structDecl hid (.list _ (allAlike_map (.cons hfirst hmore)) (S.placed hbrace)) hp

theorem structDecl_eq : structDecl = (do
    let t ← expect (.keyword .struct) "Expected 'struct'"
    let id ← name "Expected struct name"
    structBehind t.position id) :=
  rfl

theorem agree_structDecl : Agree S 1 c d structDecl structDecl := by
  rw [structDecl_eq]
  apply Agree.expect (by simp)
  intro t u c₁ d₁ htu
  apply Agree.bind (agree_name _)
  intro id id' c₂ d₂ hid
  exact agree_structBehind (S.placed htu) hid

theorem agree_formal : Agree S 0 c d formal formal := by
  apply Agree.current
  intro u hu
  have hp := S.placed hu
  apply Agree.bind agree_primitive
  rintro type _ c₁ d₁ rfl
  exact .yield (agree_name _) fun id id' hid => .formal (.primitive type hp) hid hp

theorem agree_formalsIn : Agree S 0 c d (formalsIn m) (formalsIn n) := by
  induction m generalizing c d n with
  | zero => exact .exhausted
  | succ m ih =>
      refine .of_steps n rfl fun n => ?_
      apply Agree.bind agree_formal
      intro first first' c₁ d₁ hfirst
      apply Agree.accept (by simp)
      · intro c₂ d₂
        exact .yield ih fun _ _ hmore => .cons hfirst hmore
      · exact .pure (.cons hfirst .nil)

theorem agree_formals : Agree S 0 c d formals formals := by
  apply Agree.expect (by simp)
  intro paren paren' c₁ d₁ hparen
  have hclose : ∀ (items items' : List Formal) (c₂ d₂ : Cursor), Built.Alike S.Pairs items items' →
      Agree S 0 c₂ d₂ (do
        let _ ← expect (.symbol .rightParen) "Expected ')' after parameter list"
        return (⟨items, paren.position⟩ : Formals)) (do
        let _ ← expect (.symbol .rightParen) "Expected ')' after parameter list"
        return (⟨items', paren'.position⟩ : Formals)) := by
    intro items items' c₂ d₂ hitems
    apply Agree.expect (by simp)
    intro _ _ c₃ d₃ _
    exact .pure (.list _ (allAlike_map hitems) (S.placed hparen))
  apply Agree.at?
  split
  · exact .bind (.pure List.Forall₂.nil) hclose
  · exact .bind (.measured fun _ _ => agree_formalsIn) hclose

/-! ## Statements -/

theorem agree_expression : Agree S 0 c d (expression limits) (expression limits) :=
  .measured fun m n => (exprAgrees S limits m).binary n 1 c d

theorem agree_assignment {lhs lhs' : Loc} (hlhs : Built.Alike S.Pairs lhs lhs') :
    Agree S 0 c d (assignment limits lhs) (assignment limits lhs') :=
  .measured fun m n => (exprAgrees S limits m).assignment n lhs lhs' c d hlhs

theorem agree_call : Agree S 0 c d (call limits) (call limits) :=
  .measured fun m n => (exprAgrees S limits m).call n c d

theorem agree_condition (keyword : String) :
    Agree S 0 c d (condition limits keyword) (condition limits keyword) := by
  apply Agree.expect (by simp)
  intro _ _ c₁ d₁ _
  apply Agree.bind agree_expression
  intro e e' c₂ d₂ he
  apply Agree.expect (by simp)
  intro _ _ c₃ d₃ _
  exact .pure he

theorem agree_updateOf {p q : Position} (hp : Token.Placed S.Pairs p q) {loc loc' : Loc}
    (hloc : Built.Alike S.Pairs loc loc') :
    Agree S 1 c d (updateOf limits p loc) (updateOf limits q loc') := by
  have hclose : ∀ (message : String) (s s' : Stmt) (c d : Cursor), Built.Alike S.Pairs s s' →
      Agree S 1 c d (do semicolon message; return s) (do semicolon message; return s') :=
    fun message s s' c d hs => .yield (agree_semicolon message) fun _ _ _ => hs
  apply Agree.at?
  split
  · apply Agree.bind (agree_assignment hloc)
    intro a a' c₁ d₁ ha
    exact hclose _ _ _ c₁ d₁ (.assignment ha hp)
  · apply Agree.accept (by simp)
    · intro c₁ d₁
      exact hclose _ _ _ c₁ d₁ (.increment hloc hp)
    · apply Agree.accept (by simp)
      · intro c₁ d₁
        exact hclose _ _ _ c₁ d₁ (.decrement hloc hp)
      · exact .fail

theorem agree_callStatement {p q : Position} (hp : Token.Placed S.Pairs p q) :
    Agree S 1 c d (do
      let call ← call limits
      semicolon "Expected ';' after call"
      return Stmt.call call p) (do
      let call ← call limits
      semicolon "Expected ';' after call"
      return Stmt.call call q) := by
  apply Agree.bind agree_call
  intro call call' c₁ d₁ hcall
  exact .yield (agree_semicolon _) fun _ _ _ => .callStatement hcall hp

theorem agree_nameStatement (hname : c.current.kind = .name) :
    Agree S 1 c d (nameStatement limits) (nameStatement limits) := by
  apply Agree.current
  intro u hu
  have hp := S.placed hu
  have hupdate : Agree S 1 c d (location limits >>= updateOf limits c.current.position)
      (location limits >>= updateOf limits u.position) :=
    .bind agree_location fun _ _ _ _ hloc => agree_updateOf hp hloc
  apply Agree.get
  apply Agree.ahead
  · exact agree_callStatement hp
  · exact hupdate
  · intro hcd hlast
    have hpast := hcd.past_advance (by simp [hname]) hlast
    constructor
    · apply Agree.of_strays (agree_callStatement (d := d) hp).past
      intro _
      apply Strays.bind (.measured fun m => (exprAgrees S limits m).strays c hname hpast)
      intro call c₁ hc₁
      exact (Agree.yield (d := c₁) (agree_semicolon _) fun _ _ _ =>
        Built.alike_refl hc₁.pairs (Stmt.call call c.current.position)).past hc₁
    · apply Agree.of_strays hupdate.past
      intro _
      apply Strays.bind (strays_location hname hpast)
      intro loc c₁ hc₁
      exact (agree_updateOf (d := c₁) (Node.placed_refl hc₁.pairs c.current.position)
        (Built.alike_refl hc₁.pairs loc)).past hc₁

structure StmtAgrees (S : Overlap) (limits : Limits) (m : Nat) : Prop where
  block : ∀ n c d, Agree S 1 c d (blockIn limits m) (blockIn limits n)
  statements : ∀ n c d, Agree S 0 c d (statementsIn limits m) (statementsIn limits n)
  statement : ∀ n c d, Agree S 0 c d (statementIn limits m) (statementIn limits n)

namespace StmtAgrees

variable (h : StmtAgrees S limits m)

include h

theorem agree_block : Agree S 1 c d (blockIn limits (m + 1)) (blockIn limits (n + 1)) := by
  apply Agree.expect (by simp)
  intro _ _ c₁ d₁ _
  apply Agree.nested
  apply Agree.bind agree_variableDecls
  intro decls decls' c₂ d₂ hdecls
  apply Agree.current
  intro u hu
  apply Agree.bind (h.statements n c₂ d₂)
  intro stmts stmts' c₃ d₃ hstmts
  apply Agree.yield (.close (by simp))
  intro _ _ _
  refine ⟨hdecls, .list _ ?_ (S.placed hu)⟩
  rw [Stmt.toNodes_eq_map, Stmt.toNodes_eq_map]
  exact allAlike_map hstmts

theorem agree_statements :
    Agree S 0 c d (statementsIn limits (m + 1)) (statementsIn limits (n + 1)) := by
  apply Agree.at?
  split
  · exact .pure List.Forall₂.nil
  · apply Agree.bind (h.statement n c d)
    intro first first' c₁ d₁ hfirst
    exact .yield (h.statements n c₁ d₁) fun _ _ hmore => .cons hfirst hmore

theorem agree_conditional {gap : Nat} {keyword : String} {f g : Expr → Block → Parser Stmt}
    {word : Keyword} (hword : c.current.kind = .keyword word)
    (hf : ∀ e e' b b' c' d', Built.Alike S.Pairs e e' → Built.Alike S.Pairs b b' →
      Agree S gap c' d' (f e b) (g e' b')) :
    Agree S gap c d (do
      advance
      let e ← condition limits keyword
      f e (← blockIn limits m)) (do
      advance
      let e ← condition limits keyword
      g e (← blockIn limits n)) := by
  apply Agree.advance (by simp [hword])
  intro c₁ d₁
  apply Agree.bind (agree_condition keyword)
  intro e e' c₂ d₂ he
  apply Agree.bind (h.block n c₂ d₂)
  intro b b' c₃ d₃ hb
  exact hf e e' b b' c₃ d₃ he hb

theorem agree_statement :
    Agree S 0 c d (statementIn limits (m + 1)) (statementIn limits (n + 1)) := by
  apply Agree.current
  intro u hu
  have hp := S.placed hu
  rw [← S.kind_eq hu]
  split
  iterate 4 exact .fail
  · rename_i hword
    apply Agree.advance (by simp [hword])
    intro c₁ d₁
    apply Agree.expect (by simp)
    intro _ _ c₂ d₂ _
    apply Agree.bind agree_location
    intro loc loc' c₃ d₃ hloc
    exact Agree.mono (.yield (agree_semicolon _) fun _ _ _ => .read hloc hp) (Nat.zero_le 1)
  · rename_i hword
    apply Agree.advance (by simp [hword])
    intro c₁ d₁
    apply Agree.expect (by simp)
    intro _ _ c₂ d₂ _
    apply Agree.bind agree_expression
    intro e e' c₃ d₃ he
    exact Agree.mono (.yield (agree_semicolon _) fun _ _ _ => .write he hp) (Nat.zero_le 1)
  · rename_i hword
    apply h.agree_conditional hword
    intro e e' b b' c₁ d₁ he hb
    apply Agree.accept (by simp)
    · intro c₂ d₂
      apply Agree.mono _ (Nat.zero_le 1)
      apply Agree.yield (h.block n c₂ d₂)
      intro more more' hmore
      exact .ifElse he hb.1 hb.2 hmore.1 hmore.2 hp
    · exact .pure (.ifThen he hb.1 hb.2 hp)
  · rename_i hword
    apply h.agree_conditional hword
    intro e e' b b' c₁ d₁ he hb
    exact .pure (.whileLoop he hb.1 hb.2 hp)
  · rename_i hword
    apply h.agree_conditional hword
    intro e e' b b' c₁ d₁ he hb
    exact .pure (.repeatLoop he hb.1 hb.2 hp)
  · rename_i hword
    apply Agree.advance (by simp [hword])
    intro c₁ d₁
    apply Agree.accept (by simp)
    · intro c₂ d₂
      exact .pure (.returnStatement .absent hp)
    · apply Agree.bind agree_expression
      intro e e' c₂ d₂ he
      exact Agree.mono (.yield (agree_semicolon _) fun _ _ _ => .returnStatement he hp)
        (Nat.zero_le 1)
  · rename_i hname
    exact (agree_nameStatement hname).mono (Nat.zero_le 1)
  · exact .fail

theorem succ : StmtAgrees S limits (m + 1) where
  block n _ _ := .of_steps n rfl fun _ => h.agree_block
  statements n _ _ := .of_steps n rfl fun _ => h.agree_statements
  statement n _ _ := .of_steps n rfl fun _ => h.agree_statement

end StmtAgrees

theorem stmtAgrees (S : Overlap) (limits : Limits) (m : Nat) : StmtAgrees S limits m := by
  induction m with
  | zero => exact ⟨fun _ _ _ => .exhausted, fun _ _ _ => .exhausted, fun _ _ _ => .exhausted⟩
  | succ m ih => exact ih.succ

/-! ## Declarations -/

theorem agree_body : Agree S 1 c d (body limits) (body limits) := by
  apply Agree.current
  intro u hu
  apply Agree.yield (.measured fun m n => (stmtAgrees S limits m).block n c d)
  intro b b' hb
  exact .functionBody hb.1 hb.2 (S.placed hu)

theorem agree_primitiveDeclaration :
    Agree S 1 c d (primitiveDeclaration limits) (primitiveDeclaration limits) := by
  apply Agree.current
  intro u hu
  have hp := S.placed hu
  apply Agree.bind agree_primitive
  rintro type _ c₁ d₁ rfl
  apply Agree.bind (agree_name _)
  intro id id' c₂ d₂ hid
  apply Agree.at?
  split
  · apply Agree.bind agree_formals
    intro formals formals' c₃ d₃ hformals
    apply Agree.yield agree_body
    intro body body' hbody
    exact .functionDecl (.primitive type hp) hid hformals hbody hp
  · apply Agree.yield (agree_semicolon _)
    intro _ _ _
    exact .variableDecl _ (.primitive type hp) hid hp

theorem name_of_ne (h : c.current.kind ≠ .name) (message : String) :
    name message c = .error ⟨.unexpected message, some c.current⟩ c := by
  rw [name, bind_of_ok (show current c = .ok c.current c from rfl)]
  cases hl : c.current.lexeme with
  | name text => exact absurd (by rw [Token.kind, hl]; rfl) h
  | _ => rfl

theorem agree_last_name {α : Type} [Built α] {gap : Nat} {message : String}
    {f g : Name → Parser α}
    (hlast : S.Inside c d → c.current.kind = .name → S.Past 0 c.advance)
    (hf : ∀ id c', S.Past 0 c' → Strays S gap c' (f id)) :
    Agree S gap c d (name message >>= f) (name message >>= g) where
  past hc := .bind ((agree_name (d := c) message).past hc) hf
  inside hcd := by
    by_cases hname : c.current.kind = .name
    · exact (strays_name_bind hname (hlast hcd hname) hf).imp (fun _ _ h => .inl h) fun _ _ h => .inl h
    · unfold Ends
      rw [bind_of_error (name_of_ne hname message)]
      exact .inr (.inr ⟨_, d, bind_of_error (name_of_ne (hcd.kind ▸ hname) message),
        ⟨rfl, .some hcd.current⟩, hcd.beside⟩)

theorem structDecl_of_struct (hc : c.current.kind = .keyword .struct) :
    (do return Decl.structDecl (← structDecl) : Parser Decl) c =
      (name "Expected struct name" >>= fun id => do
        return Decl.structDecl (← structBehind c.current.position id)) c.advance := by
  rw [structDecl_eq, bind_assoc, bind_of_ok (expect_of_eq hc _), bind_assoc]

theorem variableDecl_of_struct (hc : c.current.kind = .keyword .struct) :
    (do return Decl.variableDecl (← variableDecl) : Parser Decl) c =
      (name "Expected struct name" >>= fun id => do
        return Decl.variableDecl (← variableBehind c.current.position (.struct id))) c.advance := by
  have hrun : variableDecl c = structVariable c.current.position c.advance := by
    rw [variableDecl_eq]
    change (accept (.keyword .struct) >>= _) c = _
    rw [bind_of_ok (accept_of_eq hc)]
    rfl
  rw [← bind_assoc]
  simp only [bind, EStateM.bind, hrun, structVariable]

theorem agree_struct (hstruct : c.current.kind = .keyword .struct) :
    Agree S 1 c d (do
      if (← get).kindAhead? 2 = some (.symbol .leftCurly) then
        return Decl.structDecl (← structDecl)
      else
        return Decl.variableDecl (← variableDecl)) (do
      if (← get).kindAhead? 2 = some (.symbol .leftCurly) then
        return Decl.structDecl (← structDecl)
      else
        return Decl.variableDecl (← variableDecl)) := by
  apply Agree.get
  apply Agree.ahead
  · exact .yield agree_structDecl fun _ _ ha => ha
  · exact .yield agree_variableDecl fun _ _ ha => ha
  -- the third token may be behind the paired ones, but not the second, which is a name either way
  · intro hcd hlength
    have hc : c.current.kind ≠ .endOfInput := by simp [hstruct]
    have hd : d.current.kind = .keyword .struct := hcd.kind ▸ hstruct
    have hlast : S.Inside c.advance d.advance → c.advance.current.kind = .name →
        S.Past 0 c.advance.advance := by
      intro hadvance hname
      have hahead := congrArg List.length (Cursor.ahead_advance (Cursor.after_ne_nil hcd.closed hc))
      rw [Cursor.length_ahead] at hahead
      apply hadvance.past_advance (by simp [hname])
      omega
    have hstructs : ∀ id c', S.Past 0 c' →
        Strays S 1 c' (do return Decl.structDecl (← structBehind c.current.position id)) := by
      intro id c' hc'
      have hp := Node.placed_refl hc'.pairs c.current.position
      exact ends_bind.2 ((agree_structBehind (d := c') hp (Built.alike_refl hc'.pairs id)).past hc')
    have hvariables : ∀ id c', S.Past 0 c' → Strays S 1 c' (do
        return Decl.variableDecl (← variableBehind c.current.position (.struct id))) := by
      intro id c' hc'
      have hp := Node.placed_refl hc'.pairs c.current.position
      exact ends_bind.2 ((agree_variableBehind (d := c') hp
        (Built.alike_refl hc'.pairs (VariableType.struct id))).past hc')
    constructor
    · exact .step hc (structDecl_of_struct hstruct) (fun _ => variableDecl_of_struct hd)
        (agree_last_name hlast hstructs)
    · exact .step hc (variableDecl_of_struct hstruct) (fun _ => structDecl_of_struct hd)
        (agree_last_name hlast hvariables)

theorem agree_declaration : Agree S 1 c d (declaration limits) (declaration limits) := by
  apply Agree.at?
  split
  · rename_i hstruct
    exact agree_struct (of_decide_eq_true hstruct)
  · apply Agree.bind agree_atPrimitive
    rintro b _ c₁ d₁ rfl
    split
    · exact agree_primitiveDeclaration
    · exact .fail

theorem agree_declarationsIn :
    Agree S 0 c d (declarationsIn limits m) (declarationsIn limits n) := by
  induction m generalizing c d n with
  | zero => exact .exhausted
  | succ m ih =>
      refine .of_steps n rfl fun n => ?_
      apply Agree.at?
      split
      · exact .pure List.Forall₂.nil
      · apply Agree.bind agree_declaration
        intro first first' c₁ d₁ hfirst
        exact .yield ih fun _ _ hmore => .cons hfirst hmore

theorem agree_program : Agree S 0 c d (program limits) (program limits) := by
  apply Agree.current
  intro u hu
  apply Agree.yield (.measured fun _ _ => agree_declarationsIn)
  intro decls decls' hdecls
  exact .program (.list _ (allAlike_map hdecls) (S.placed hu)) (S.placed hu)

end Parser

end Cmm

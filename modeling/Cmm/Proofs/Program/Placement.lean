import Cmm.Proofs.Expr.Placement
import Cmm.Proofs.Program.Concatenation
import Cmm.Proofs.Program.RoundTrip

/-!
# Programs on their tokens

Every part of a program is placed on the tokens that it is read from.  So each node of the tree of a
source text stands at the position of the token that fits it, and the nodes stand in the order of
the text.
-/

namespace Cmm

def Block.parts : Block → List Component
  | .mk decls stmts p =>
    Component.block (decls.items.map VariableDecl.toNode) decls.position (Stmt.toNodes stmts) p

namespace Parser

variable {limits : Limits} {steps : Nat} {c : Cursor}

/-! ## Variables -/

theorem yields_placed_semicolon (c : Cursor) (message : String) :
    Yields c (semicolon message) fun _ u _ => Placed [Component.sign .semicolon] u :=
  .expect (by simp) (fun hsign => .pure (Placed.nil.sign hsign)) fun _ => trivial

theorem yields_placed_primitive (c : Cursor) : Yields c primitive fun type u _ =>
    (Node.primitive type c.current.position).PlacedOn u := by
  refine .current ?_
  split
  · rename_i type htype
    have hk := Primitive.eq_keyword_of_ofKind? htype
    exact .advance (by simp [hk])
      (.pure (Node.Form.primitive.placedOn (.here (Placed.nil.word hk))))
  · exact .fail trivial

theorem yields_placed_variableDecl (c : Cursor) :
    Yields c variableDecl fun v u _ => v.toNode.PlacedOn u := by
  have hclose : ∀ (d : Cursor) (type : VariableType) (u : List Token),
      Placed [.here c.current.position, .node (type.toNode c.current.position)] u → Yields d (do
        let id ← name "Expected identifier"
        semicolon "Expected ';' after declaration"
        return (⟨type, id, c.current.position⟩ : VariableDecl))
        fun v w _ => v.toNode.PlacedOn (u ++ w) := by
    intro d type u htype
    refine .bind (yields_placed_name d _) fun id v e _ ⟨_, hid⟩ => ?_
    refine .bind (yields_placed_semicolon e _) fun _ w e' _ hsemi => .pure ?_
    rw [List.append_nil]
    exact Node.Form.variableDecl.placedOn (htype.append (hid.append hsemi))
  refine .current (.accept (by simp) (fun hstruct => ?_) fun _ => ?_)
  · have htype : Yields c.advance (VariableType.struct <$> name "Expected struct name")
        fun type u _ => (type.toNode c.current.position).PlacedOn (c.current :: u) :=
      .map ((yields_placed_name _ _).yields fun id u d _ ⟨_, hid⟩ =>
        Node.Form.structType.placedOn (.here (hid.word hstruct)))
    exact .bind htype fun type u d _ htype => hclose d type _ (.here htype)
  · have htype : Yields c (VariableType.primitive <$> primitive)
        fun type u _ => (type.toNode c.current.position).PlacedOn u :=
      .map (yields_placed_primitive c)
    exact .bind htype fun type u d hu htype => hclose d type u (htype.here_of_reads hu)

theorem yields_placed_variableDeclsIn (c : Cursor) :
    Yields c (variableDeclsIn steps) fun vs u _ =>
      Placed ((vs.map VariableDecl.toNode).map .node) u := by
  induction steps generalizing c with
  | zero => exact .exhausted trivial
  | succ steps ih =>
      change Runs c (if _ then _ else _) _ _
      split
      · refine .bind (yields_placed_variableDecl c) fun v u d _ hv => ?_
        refine .bind (ih d) fun vs w e _ hvs => .pure ?_
        rw [List.append_nil]
        exact hv.append hvs
      · exact .pure .nil

theorem yields_placed_variableDecls (c : Cursor) :
    Yields c variableDecls fun vs u _ => vs.position = c.current.position ∧
      Placed ((vs.items.map VariableDecl.toNode).map .node) u := by
  refine .current (.bind (.measured (yields_placed_variableDeclsIn c)) fun vs u d _ hvs => .pure ?_)
  rw [List.append_nil]
  exact ⟨rfl, hvs⟩

/-! ## Structs -/

theorem yields_placed_field (c : Cursor) :
    Yields c field fun v u _ => v.toNode.PlacedOn u := by
  change Runs c (if _ then _ else _) _ _
  split
  · exact yields_placed_variableDecl c
  · exact .fail trivial

theorem yields_placed_fieldsIn (c : Cursor) :
    Yields c (fieldsIn steps) fun vs u _ =>
      Placed ((vs.map VariableDecl.toNode).map .node) u := by
  induction steps generalizing c with
  | zero => exact .exhausted trivial
  | succ steps ih =>
      refine .at? ?_
      split
      · exact .pure .nil
      · refine .bind (yields_placed_field c) fun v u d _ hv => ?_
        refine .bind (ih d) fun vs w e _ hvs => .pure ?_
        rw [List.append_nil]
        exact hv.append hvs

theorem yields_placed_structDecl (c : Cursor) :
    Yields c structDecl fun s u _ => s.toNode.PlacedOn u := by
  refine .expect (by simp) (fun hstruct => ?_) fun _ => trivial
  refine .bind (yields_placed_name _ _) fun id u d _ ⟨_, hid⟩ => ?_
  refine .expect (by simp) (fun hleft => ?_) fun _ => trivial
  refine .bind (yields_placed_field _) fun first v e _ hfirst => ?_
  refine .bind (.measured (yields_placed_fieldsIn e)) fun more w e' _ hmore => ?_
  refine .expect (by simp) (fun hright => ?_) fun _ => trivial
  refine .bind (yields_placed_semicolon _ _) fun _ x _ _ hsemi => .pure ?_
  rw [List.append_nil]
  have hfields := hfirst.append (hmore.append (hsemi.sign hright))
  exact Node.Form.structDecl.placedOn
    (.here ((hid.append (.here (hfields.sign hleft))).word hstruct))

/-! ## Formal parameters -/

theorem yields_placed_formal (c : Cursor) :
    Yields c formal fun f u _ => f.toNode.PlacedOn u := by
  refine .current (.bind (yields_placed_primitive c) fun type u d hu htype => ?_)
  refine .bind (yields_placed_name d _) fun id v e _ ⟨_, hid⟩ => .pure ?_
  rw [List.append_nil]
  exact Node.Form.formal.placedOn ((htype.here_of_reads hu).append hid)

theorem yields_placed_formalsIn (c : Cursor) :
    Yields c (formalsIn steps) fun fs u _ =>
      fs ≠ [] ∧ Placed (Component.withCommas (fs.map Formal.toNode)) u := by
  induction steps generalizing c with
  | zero => exact .exhausted trivial
  | succ steps ih =>
      refine .bind (yields_placed_formal c) fun first u d _ hfirst => ?_
      refine .accept (by simp) (fun hcomma => ?_) fun _ => .pure ⟨by simp, ?_⟩
      · refine .bind (ih d.advance) fun rest v e _ ⟨hne, hrest⟩ => .pure ⟨by simp, ?_⟩
        obtain ⟨second, rest, rfl⟩ := List.exists_cons_of_ne_nil hne
        rw [List.append_nil]
        exact hfirst.append (hrest.sign hcomma)
      · rw [List.append_nil]
        exact hfirst

theorem yields_placed_formals (c : Cursor) :
    Yields c formals fun fs u _ => fs.toNode.PlacedOn u := by
  refine .expect (by simp) (fun hleft => ?_) fun _ => trivial
  have hitems : Yields c.advance
      (if decide (c.advance.current.kind = .symbol .rightParen) = true then Pure.pure []
        else measured formalsIn)
      fun fs u _ => Placed (Component.withCommas (fs.map Formal.toNode)) u := by
    split
    · exact .pure .nil
    · exact .measured ((yields_placed_formalsIn _).yields fun fs u d _ hfs => hfs.2)
  refine .at? (.ite_bind (.bind hitems fun fs u d _ hfs => ?_))
  refine .expect (by simp) (fun hright => .pure ?_) fun _ => trivial
  exact Node.Form.formals.placedOn
    (.here ((hfs.append (Placed.nil.sign hright)).sign hleft))

/-! ## Statements -/

theorem yields_placed_condition (c : Cursor) (keyword : String) :
    Yields c (condition limits keyword) fun e u _ => Placed (Component.condition e.toNode) u := by
  refine .expect (by simp) (fun hleft => ?_) fun _ => trivial
  refine .bind (yields_placed_expression _) fun e u d _ he => ?_
  refine .expect (by simp) (fun hright => .pure ?_) fun _ => trivial
  exact (he.append (Placed.nil.sign hright)).sign hleft

theorem yields_placed_nameStatement (c : Cursor) :
    Yields c (nameStatement limits) fun s u _ => s.toNode.PlacedOn u := by
  refine .current (.get ?_)
  split
  · refine .bind (yields_placed_call c) fun e u d hu he => ?_
    refine .bind (yields_placed_semicolon d _) fun _ v _ _ hsemi => .pure ?_
    rw [List.append_nil]
    exact Node.Form.callStatement.placedOn ((he.here_of_reads hu).append hsemi)
  · refine .bind (yields_placed_location c) fun l u d hu hl => .at? ?_
    split
    · refine .bind (yields_placed_assignment d hl) fun a v e hv ha => ?_
      refine .bind (yields_placed_semicolon e _) fun _ w _ _ hsemi => .pure ?_
      rw [List.append_nil, ← List.append_assoc]
      exact Node.Form.assignment.placedOn ((ha.here_of_reads (hu.trans hv)).append hsemi)
    refine .accept (by simp) (fun hsign => ?_) fun _ =>
      .accept (by simp) (fun hsign => ?_) fun _ => ?_
    · refine .bind (yields_placed_semicolon _ _) fun _ w _ _ hsemi => .pure ?_
      rw [List.append_nil]
      exact Node.Form.increment.placedOn ((hl.here_of_reads hu).append (hsemi.sign hsign))
    · refine .bind (yields_placed_semicolon _ _) fun _ w _ _ hsemi => .pure ?_
      rw [List.append_nil]
      exact Node.Form.decrement.placedOn ((hl.here_of_reads hu).append (hsemi.sign hsign))
    · exact .fail trivial

structure StmtPlaced (limits : Limits) (steps : Nat) : Prop where
  block : ∀ c : Cursor, Yields c (blockIn limits steps) fun b u _ => Placed b.parts u
  statements : ∀ c : Cursor, Yields c (statementsIn limits steps) fun ss u _ =>
    Placed ((Stmt.toNodes ss).map .node) u
  statement : ∀ c : Cursor, Yields c (statementIn limits steps) fun s u _ => s.toNode.PlacedOn u

namespace StmtPlaced

theorem zero : StmtPlaced limits 0 where
  block _ := .exhausted trivial
  statements _ := .exhausted trivial
  statement _ := .exhausted trivial

variable (h : StmtPlaced limits steps)

include h

theorem yields_block (c : Cursor) :
    Yields c (blockIn limits (steps + 1)) fun b u _ => Placed b.parts u := by
  refine .expect (by simp) (fun hleft => .nested (fun _ => ?_) fun _ => trivial) fun _ => trivial
  refine .bind (yields_placed_variableDecls _) fun decls u d hu ⟨hposition, hdecls⟩ => .current ?_
  refine .bind (h.statements d) fun ss v e hv hss => ?_
  refine .expect (by simp) (fun hright => .pure ?_) fun _ => trivial
  -- the lists stand where the next token does, which may be the closing brace
  have hstmts := (hss.append (Placed.nil.sign hright)).here_of_reads_append hv
  have hboth := hdecls.append hstmts
  rw [← List.append_assoc] at hboth ⊢
  have hplace := hboth.here_of_reads_append (hu.trans hv)
  rw [← hposition] at hplace
  exact hplace.sign hleft

theorem yields_statements (c : Cursor) :
    Yields c (statementsIn limits (steps + 1)) fun ss u _ =>
      Placed ((Stmt.toNodes ss).map .node) u := by
  refine .at? ?_
  split
  · exact .pure .nil
  · refine .bind (h.statement c) fun s u d _ hs => ?_
    refine .bind (h.statements d) fun ss v e _ hss => .pure ?_
    rw [List.append_nil]
    exact hs.append hss

theorem yields_conditional (c : Cursor) (keyword : String) {w : Keyword} {p : Position}
    {make : Expr → Block → Position → Stmt} (hmake : ∀ e b, (make e b p).toNode.Form
      (.here p :: .word w :: (Component.condition e.toNode ++ b.parts))) {t : Token}
    (ht : t.kind = .keyword w) (hp : t.position = p) :
    Yields c (do
      let e ← condition limits keyword
      return make e (← blockIn limits steps) p) fun s u _ => s.toNode.PlacedOn (t :: u) := by
  subst hp
  refine .bind (yields_placed_condition c keyword) fun e u d _ he => ?_
  refine .bind (h.block d) fun b v e' _ hb => .pure ?_
  rw [List.append_nil]
  exact (hmake e b).placedOn (.here ((he.append hb).word ht))

theorem yields_statement (c : Cursor) :
    Yields c (statementIn limits (steps + 1)) fun s u _ => s.toNode.PlacedOn u := by
  refine .current ?_
  split
  any_goals exact .fail trivial
  · rename_i hk
    refine .advance (by simp [hk]) (.expect (by simp) (fun hsign => ?_) fun _ => trivial)
    refine .bind (yields_placed_location _) fun l u d _ hl => ?_
    refine .bind (yields_placed_semicolon d _) fun _ v _ _ hsemi => .pure ?_
    rw [List.append_nil]
    exact Node.Form.read.placedOn (.here (((hl.append hsemi).sign hsign).word hk))
  · rename_i hk
    refine .advance (by simp [hk]) (.expect (by simp) (fun hsign => ?_) fun _ => trivial)
    refine .bind (yields_placed_expression _) fun e u d _ he => ?_
    refine .bind (yields_placed_semicolon d _) fun _ v _ _ hsemi => .pure ?_
    rw [List.append_nil]
    exact Node.Form.write.placedOn (.here (((he.append hsemi).sign hsign).word hk))
  · rename_i hk
    refine .advance (by simp [hk]) ?_
    refine .bind (yields_placed_condition _ _) fun e u d _ he => ?_
    refine .bind (h.block d) fun b v d' _ hb => ?_
    refine .accept (by simp) (fun helse => ?_) fun _ => .pure ?_
    · refine .bind (h.block _) fun b' w e' _ hb' => .pure ?_
      rw [List.append_nil]
      cases b
      cases b'
      exact Node.Form.ifElse.placedOn (.here ((he.append (hb.append (hb'.word helse))).word hk))
    · rw [List.append_nil]
      cases b
      exact Node.Form.ifThen.placedOn (.here ((he.append hb).word hk))
  · rename_i hk
    refine .advance (by simp [hk]) (h.yields_conditional _ _ ?_ hk rfl)
    rintro e ⟨_, _, _⟩
    exact .whileLoop
  · rename_i hk
    refine .advance (by simp [hk]) (h.yields_conditional _ _ ?_ hk rfl)
    rintro e ⟨_, _, _⟩
    exact .repeatLoop
  · rename_i hk
    refine .advance (by simp [hk]) (.accept (by simp) (fun hsemi => .pure ?_) fun _ => ?_)
    · exact Node.Form.returnNothing.placedOn (.here ((Placed.nil.sign hsemi).word hk))
    · refine .bind (yields_placed_expression _) fun e u d _ he => ?_
      refine .bind (yields_placed_semicolon d _) fun _ v _ _ hsemi => .pure ?_
      rw [List.append_nil]
      exact Node.Form.returnValue.placedOn (.here ((he.append hsemi).word hk))
  · exact yields_placed_nameStatement c

theorem succ : StmtPlaced limits (steps + 1) where
  block := h.yields_block
  statements := h.yields_statements
  statement := h.yields_statement

end StmtPlaced

theorem stmtPlaced (limits : Limits) (steps : Nat) : StmtPlaced limits steps := by
  induction steps with
  | zero => exact StmtPlaced.zero
  | succ steps ih => exact ih.succ

/-! ## Declarations -/

theorem yields_placed_body (c : Cursor) :
    Yields c (body limits) fun b u _ => b.toNode.PlacedOn u := by
  have hblock : Yields c (block limits) fun b u _ => Placed b.parts u :=
    .measured ((stmtPlaced limits _).block c)
  refine .current (.bind hblock fun b u d hu hb => .pure ?_)
  rw [List.append_nil]
  cases b
  exact Node.Form.functionBody.placedOn (hb.here_of_reads hu)

theorem yields_placed_primitiveDeclaration (c : Cursor) :
    Yields c (primitiveDeclaration limits) fun d u _ => d.toNode.PlacedOn u := by
  refine .current (.bind (yields_placed_primitive c) fun type u d hu htype => ?_)
  refine .bind (yields_placed_name d _) fun id v e _ ⟨_, hid⟩ => .at? ?_
  have hplace := (htype.here_of_reads hu).append hid
  split
  · refine .bind (yields_placed_formals e) fun params w e' _ hparams => ?_
    refine .bind (yields_placed_body e') fun b x d' _ hbody => .pure ?_
    rw [List.append_nil, ← List.append_assoc]
    exact Node.Form.functionDecl.placedOn (hplace.append (hparams.append hbody))
  · refine .bind (yields_placed_semicolon e _) fun _ w e' _ hsemi => .pure ?_
    rw [List.append_nil, ← List.append_assoc]
    exact Node.Form.variableDecl.placedOn (hplace.append hsemi)

theorem yields_placed_declaration (c : Cursor) :
    Yields c (declaration limits) fun d u _ => d.toNode.PlacedOn u := by
  refine .at? ?_
  split
  · refine .get ?_
    split
    · refine .bind (yields_placed_structDecl c) fun s u d _ hs => .pure ?_
      rwa [List.append_nil]
    · refine .bind (yields_placed_variableDecl c) fun v u d _ hv => .pure ?_
      rwa [List.append_nil]
  · change Runs c (if _ then _ else _) _ _
    split
    · exact yields_placed_primitiveDeclaration c
    · exact .fail trivial

theorem yields_placed_declarationsIn (c : Cursor) :
    Yields c (declarationsIn limits steps) fun ds u _ =>
      Placed ((ds.map Decl.toNode).map .node) u := by
  induction steps generalizing c with
  | zero => exact .exhausted trivial
  | succ steps ih =>
      refine .at? ?_
      split
      · exact .pure .nil
      · refine .bind (yields_placed_declaration c) fun first u d _ hfirst => ?_
        refine .bind (ih d) fun rest v e _ hrest => .pure ?_
        rw [List.append_nil]
        exact hfirst.append hrest

theorem yields_placed_program (c : Cursor) :
    Yields c (program limits) fun p u d =>
      d.current.kind = .endOfInput ∧ p.toNode.PlacedOn (u ++ [d.current]) := by
  have hdecls : Runs c (declarationsIn limits (4 * (c.after.length + 1) + 8)) _ _ :=
    Runs.and (yields_placed_declarationsIn c) (yields_declarationsIn c)
  refine .current (.bind (.measured hdecls) fun ds u d hu ⟨hds, hend⟩ => .pure ⟨hend, ?_⟩)
  rw [List.append_nil]
  have hlast := Placed.nil.lexeme (Token.plain_eq_endOfInput_iff.2 hend)
  exact Node.Form.program.placedOn ((hds.append hlast).here_of_reads_append hu)

end Parser

/-! ## Source texts -/

theorem Node.exists_position {n : Node} (h : n.isAbsent = false) : ∃ p, n.position? = some p := by
  cases n with
  | absent => cases h
  | _ => exact ⟨_, rfl⟩

theorem Node.PlacedOn.exists_token {n m : Node} {tokens : List Token} (h : n.PlacedOn tokens)
    (hm : m.Within n) (hpresent : m.isAbsent = false) :
    ∃ t ∈ tokens, m.position? = some t.position := by
  obtain ⟨p, hp⟩ := m.exists_position hpresent
  obtain ⟨t, ht, rfl⟩ := Placed.exists_token h ⟨_, List.mem_singleton_self _, m, hm, hp⟩
  exact ⟨t, ht, hp⟩

theorem Program.placedOn_of_result {limits : Limits} {source : String} {tokens : List Token}
    {p : Program} (htokens : (Scan.ofText source.toList).result = .ok tokens)
    (hp : ofTokens limits tokens = .ok p) : p.toNode.PlacedOn tokens := by
  obtain ⟨d, hrun⟩ := ofTokens_eq_ok_iff.1 hp
  obtain ⟨u, hu, hend, hplaced⟩ :=
    (Parser.yields_placed_program _ (Cursor.closed_ofTokens tokens)).of_ok hrun
  have hahead := Cursor.ahead_ofTokens tokens
  rw [closeInput_of_closed (Scan.getLast?_of_result htokens)] at hahead
  have hlast := hu.ahead_end hend (fun t ht => Scan.kind_of_mem_tokens ht)
    (hahead.trans (Scan.eq_append_of_result htokens))
  obtain ⟨hcurrent, -⟩ := List.cons.inj hlast
  rwa [hcurrent, ← hlast, ← hu.ahead, hahead] at hplaced

/-- The tree of a source text is placed on the tokens of the text: the parts of every node are
spelled by its tokens, and the node and its lists stand where the table of forms says.  In
particular every node stands where one of the tokens does, and all of them are in the order of the
text: what is on the left of an operator, a dot or an assignment in front of it, what is on the
right behind it, and the elements of a list one behind the other. -/
theorem program_placed {limits : Limits} {source : String} {p : Program}
    (h : Program.ofText limits source = .ok p) : ∃ tokens,
      (Scan.ofText source.toList).result = .ok tokens ∧
      p.toNode.PlacedOn tokens ∧
      (∀ m : Node, m.Within p.toNode → m.isAbsent = false →
        ∃ t ∈ tokens, m.position? = some t.position) ∧
      p.toNode.Ordered := by
  obtain ⟨tokens, htokens, hp⟩ := Program.ofText_eq_ok_iff.1 h
  have hplaced := Program.placedOn_of_result htokens hp
  have hincreasing := Scan.increasing_of_tokens (Scan.result_eq_ok htokens).1
  refine ⟨tokens, htokens, hplaced, fun m hm hpresent => hplaced.exists_token hm hpresent, ?_⟩
  exact Placed.ordered hplaced hincreasing _ (List.mem_singleton_self _)

private def placedSource : String := "int f() \x7b\n  x.y = -a * (b + 1);\n\x7d"

theorem program_placed_of_assignment : ∃ p tokens, Program.ofText {} placedSource = .ok p ∧
    (Scan.ofText placedSource.toList).result = .ok tokens ∧ p.toNode.PlacedOn tokens ∧
    (∀ m : Node, m.Within p.toNode → m.isAbsent = false →
      ∃ t ∈ tokens, m.position? = some t.position) ∧ p.toNode.Ordered := by
  have hsome : (Program.ofText {} placedSource).toOption.isSome = true := by decide +kernel
  obtain ⟨p, hp⟩ : ∃ p, Program.ofText {} placedSource = .ok p := by
    cases h : Program.ofText {} placedSource with
    | error e => simp [h, Except.toOption] at hsome
    | ok p => exact ⟨p, rfl⟩
  obtain ⟨tokens, htokens, hplaced, hpositions, hordered⟩ := program_placed hp
  exact ⟨p, tokens, hp, htokens, hplaced, hpositions, hordered⟩

end Cmm

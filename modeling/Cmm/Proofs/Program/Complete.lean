import Cmm.Proofs.Expr.Complete
import Cmm.Proofs.Program.Written

/-!
# What is spelled is read as a program

A program that is spelled with the parentheses that the printer puts is read with the same tree, if
there is room for its blocks and expressions.
-/

namespace Cmm

/-- Whether there is room within the limits to read what the printer writes at a site. -/
def Site.HasRoom (limits : Limits) (depth : Nat) : Site → Prop
  | .name _ => True
  | .expression e =>
    (depth + (1 + e.printed.nesting) : Nat) ≤ limits.depth ∧ limits.Admits e.height
  | .block => (depth : Int) ≤ limits.depth

abbrev AllHaveRoom (limits : Limits) : List (Nat × Site) → Prop := AllSites (Site.HasRoom limits)

def Kind.startsVariable (k : Kind) : Bool :=
  (Primitive.ofKind? k).isSome || decide (k = .keyword .struct)

structure VariableType.Same (type other : VariableType) : Prop where
  size : type.size = other.size
  node : ∀ p q, (type.toNode p).sameAs (other.toNode q) = true

theorem Primitive.keyword_ne_struct (type : Primitive) : type.keyword ≠ .struct := by
  cases type <;> decide

namespace Parser

variable {limits : Limits} {c d : Cursor} {ls : List Lexeme}

/-! ## Types and names -/

theorem gives_semicolon (h : c.Spells [.ofSymbol .semicolon] d) (message : String) :
    Gives c (semicolon message) d fun _ => True := by
  obtain ⟨-, -, hnil⟩ := h.cons
  obtain rfl := hnil.nil
  exact .expect h.kind (.pure trivial)

theorem gives_primitive {type : Primitive} (h : c.Spells (.ofKeyword type.keyword :: ls) d) :
    Gives c primitive c.advance fun a => a = type := by
  have hkind : c.current.kind = .keyword type.keyword := h.kind
  refine .current ?_
  rw [hkind]
  cases type <;> exact .advance (.pure rfl)

theorem gives_name_node {id : Name} (h : c.Spells (.name id.text :: ls) d) (message : String) :
    Gives c (name message) c.advance fun a => a.toNode.sameAs id.toNode = true :=
  (gives_name h message).imp fun _ ha => Name.sameAs_toNode ha

/-! ## Variables -/

theorem startsVariable_of_type (type : VariableType) (h : c.Spells (type.lexemes ++ ls) d) :
    c.current.kind.startsVariable = true := by
  cases type with
  | primitive type =>
      rw [h.kind]
      cases type <;> rfl
  | struct id =>
      rw [h.kind]
      rfl

theorem gives_variableDecl (v : VariableDecl) (h : c.Spells v.lexemes d) :
    Gives c variableDecl d fun a => a.toNode.sameAs v.toNode = true := by
  have hclose : ∀ {c : Cursor} (type : VariableType) (p : Position), type.Same v.type →
      c.Spells [.name v.id.text, .ofSymbol .semicolon] d → Gives c (do
        let id ← name "Expected identifier"
        semicolon "Expected ';' after declaration"
        return (⟨type, id, p⟩ : VariableDecl)) d fun a => a.toNode.sameAs v.toNode = true := by
    intro c type p htype h
    obtain ⟨-, -, hend⟩ := h.cons
    refine .bind (gives_name_node h _) fun id hid => .bind (gives_semicolon hend _) fun _ _ => .pure ?_
    simp [VariableDecl.toNode, Node.sameAs, hid, htype.size, htype.node]
  rw [VariableDecl.lexemes] at h
  cases htype : v.type with
  | primitive type =>
      rw [htype, VariableType.lexemes, List.singleton_append] at h
      obtain ⟨-, -, hrest⟩ := h.cons
      have hstruct : c.current.kind ≠ .keyword .struct := by
        rw [h.kind]
        exact fun heq => type.keyword_ne_struct (Kind.keyword.inj heq)
      refine .current (.refuse hstruct ?_)
      refine .bind (.map ((gives_primitive h).imp fun a ha => ?_)) fun a ha => hclose a _ ha hrest
      rw [htype, ha]
      exact ⟨rfl, fun p q => by simp [VariableType.toNode, Node.sameAs]⟩
  | struct id =>
      rw [htype, VariableType.lexemes] at h
      obtain ⟨-, -, hid⟩ := h.cons
      obtain ⟨-, -, hrest⟩ := hid.cons
      refine .current (.accept h.kind ?_)
      refine .bind (.map ((gives_name_node hid _).imp fun a ha => ?_)) fun a ha => hclose a _ ha hrest
      rw [htype]
      exact ⟨rfl, fun p q => by simp [VariableType.toNode, Node.sameAs, ha]⟩

theorem Gives.atVariable {β : Type} {f : Bool → Parser β} {e : Cursor} {R : β → Prop} {b : Bool}
    (hb : c.current.kind.startsVariable = b) (h : Gives c (f b) e R) :
    Gives c (atVariable >>= f) e R := by
  subst hb
  exact h

theorem gives_variableDeclsIn (vs : List VariableDecl)
    (h : c.Spells (vs.flatMap VariableDecl.lexemes) d)
    (hend : d.current.kind.startsVariable = false) (steps : Nat) :
    Gives c (variableDeclsIn steps) d fun as =>
      Node.allSameAs (as.map VariableDecl.toNode) (vs.map VariableDecl.toNode) = true := by
  induction vs generalizing c steps with
  | nil =>
      obtain rfl := h.nil
      cases steps with
      | zero => exact .exhausted
      | succ steps => exact .atVariable hend (.pure rfl)
  | cons v vs ih =>
      rw [List.flatMap_cons] at h
      obtain ⟨e, hv, hvs⟩ := h.append
      cases steps with
      | zero => exact .exhausted
      | succ steps =>
          refine .atVariable (startsVariable_of_type v.type hv) ?_
          refine .bind (gives_variableDecl v hv) fun a ha => .bind (ih hvs steps) fun as has => .pure ?_
          simp [Node.allSameAs, ha, has]

theorem gives_variableDecls (vs : VariableDecls)
    (h : c.Spells (vs.items.flatMap VariableDecl.lexemes) d)
    (hend : d.current.kind.startsVariable = false) :
    Gives c variableDecls d fun as => as.toNode.sameAs vs.toNode = true :=
  .current (.bind (.measured (gives_variableDeclsIn vs.items h hend)) fun as has =>
    .pure (by simpa [VariableDecls.toNode, Node.sameAs] using has))

theorem gives_field (v : VariableDecl) (h : c.Spells v.lexemes d) :
    Gives c field d fun a => a.toNode.sameAs v.toNode = true :=
  .atVariable (startsVariable_of_type v.type h) (gives_variableDecl v h)

theorem gives_fieldsIn (vs : List VariableDecl)
    (h : c.Spells (vs.flatMap VariableDecl.lexemes) d)
    (hend : d.current.kind = .symbol .rightCurly) (steps : Nat) :
    Gives c (fieldsIn steps) d fun as =>
      Node.allSameAs (as.map VariableDecl.toNode) (vs.map VariableDecl.toNode) = true := by
  induction vs generalizing c steps with
  | nil =>
      obtain rfl := h.nil
      cases steps with
      | zero => exact .exhausted
      | succ steps =>
          refine .at? ?_
          rw [hend]
          exact .pure rfl
  | cons v vs ih =>
      rw [List.flatMap_cons] at h
      obtain ⟨e, hv, hvs⟩ := h.append
      cases steps with
      | zero => exact .exhausted
      | succ steps =>
          have hstart := startsVariable_of_type v.type hv
          refine .at? ?_
          rw [if_neg]
          · refine .bind (gives_field v hv) fun a ha => .bind (ih hvs steps) fun as has => .pure ?_
            simp [Node.allSameAs, ha, has]
          · rintro hclose
            rw [of_decide_eq_true hclose] at hstart
            cases hstart

theorem gives_structDecl (s : StructDecl) (h : c.Spells (Decl.structDecl s).lexemes d) :
    Gives c structDecl d fun a => a.toNode.sameAs s.toNode = true := by
  obtain ⟨-, -, hid⟩ := h.cons
  obtain ⟨-, -, hopen⟩ := hid.cons
  obtain ⟨-, -, hfields⟩ := hopen.cons
  obtain ⟨e, hfields, hclose⟩ := hfields.append
  rw [List.flatMap_cons] at hfields
  obtain ⟨e', hfirst, hmore⟩ := hfields.append
  obtain ⟨-, -, hend⟩ := hclose.cons
  refine .expect h.kind (.bind (gives_name_node hid _) fun id hid => .expect hopen.kind ?_)
  refine .bind (gives_field s.first hfirst) fun a ha => ?_
  refine .bind (.measured (gives_fieldsIn s.more hmore hclose.kind)) fun as has => ?_
  refine .expect hclose.kind (.bind (gives_semicolon hend _) fun _ _ => .pure ?_)
  simp [StructDecl.toNode, StructDecl.fields, VariableDecls.toNode, Node.sameAs, Node.allSameAs,
    hid, ha, has]

/-! ## Formal parameters -/

theorem gives_formal (f : Formal) (h : c.Spells f.lexemes d) :
    Gives c formal d fun a => a.toNode.sameAs f.toNode = true := by
  obtain ⟨-, -, hid⟩ := h.cons
  obtain ⟨-, -, hnil⟩ := hid.cons
  obtain rfl := hnil.nil
  refine .current (.bind (gives_primitive h) fun a ha => .bind (gives_name_node hid _) fun id hid => ?_)
  refine .pure ?_
  simp [Formal.toNode, Node.sameAs, ha, hid]

theorem gives_formalsIn (f : Formal) (fs : List Formal)
    (h : c.Spells (separated ((f :: fs).map Formal.lexemes)) d)
    (hend : d.current.kind ≠ .symbol .comma) (steps : Nat) :
    Gives c (formalsIn steps) d fun as =>
      Node.allSameAs (as.map Formal.toNode) ((f :: fs).map Formal.toNode) = true := by
  induction fs generalizing f c steps with
  | nil =>
      cases steps with
      | zero => exact .exhausted
      | succ steps =>
          refine .bind (gives_formal f h) fun a ha => .refuse hend (.pure ?_)
          simp [Node.allSameAs, ha]
  | cons f' fs ih =>
      obtain ⟨e, hf, hcomma⟩ := h.append
      obtain ⟨-, -, hfs⟩ := hcomma.cons
      cases steps with
      | zero => exact .exhausted
      | succ steps =>
          refine .bind (gives_formal f hf) fun a ha => .accept hcomma.kind ?_
          refine .bind (ih f' hfs steps) fun as has => .pure ?_
          simp_all [Node.allSameAs]

theorem gives_formals (fs : Formals) (h : c.Spells fs.lexemes d) :
    Gives c formals d fun a => a.toNode.sameAs fs.toNode = true := by
  obtain ⟨-, -, hrest⟩ := h.cons
  obtain ⟨e, hitems, hclose⟩ := hrest.append
  have hkind : e.current.kind = .symbol .rightParen := hclose.kind
  obtain ⟨-, -, hnil⟩ := hclose.cons
  obtain rfl := hnil.nil
  have hgives : Gives c.advance
      (if decide (c.advance.current.kind = .symbol .rightParen) = true then Pure.pure []
        else measured formalsIn) e fun as =>
        Node.allSameAs (as.map Formal.toNode) (fs.items.map Formal.toNode) = true := by
    cases hfs : fs.items with
    | nil =>
        rw [hfs] at hitems
        obtain rfl := hitems.nil
        rw [if_pos (decide_eq_true hkind)]
        exact .pure rfl
    | cons f rest =>
        rw [hfs] at hitems
        have hstart : c.advance.current.kind ≠ .symbol .rightParen := by
          have hk : c.advance.current.kind = .keyword f.type.keyword := by
            cases rest <;> exact hitems.kind
          simp [hk]
        rw [if_neg (by simpa using hstart)]
        exact .measured (gives_formalsIn f rest hitems (by simp [hkind]))
  refine .expect h.kind (.at? (.ite_bind (.bind hgives fun as has => .expect hkind (.pure ?_))))
  simpa [Formals.toNode, Node.sameAs] using has

/-! ## Expressions in statements -/

theorem gives_expression_node (e : Expr) (h : c.Spells e.printed.lexemes d)
    (hroom : (Site.expression e).HasRoom limits c.depth)
    (hend : d.current.kind ∈ [.symbol .rightParen, .symbol .semicolon]) :
    Gives c (expression limits) d fun a => a.toNode.sameAs e.toNode = true := by
  obtain ⟨hdepth, hheight⟩ := hroom
  have hstop : e.printed.goesOn d.current.kind = false := by
    generalize d.current.kind = k at hend
    refine e.printed.goesOn_eq_false ?_ ?_
    · revert k
      decide
    · revert k
      decide
  refine (gives_expression e.proper_printed h hstop hdepth ?_).imp fun a ha => ?_
  · rwa [e.tree_printed, Expr.height_unplaced]
  · exact Expr.sameAs_toNode a e (ha.trans e.tree_printed)

theorem gives_location_node (l : Loc) (h : c.Spells l.lexemes d)
    (hroom : (Site.expression (.loc l)).HasRoom limits c.depth)
    (hdot : d.current.kind ≠ .symbol .dot) :
    Gives c (location limits) d fun a => a.toNode.sameAs l.toNode = true :=
  (gives_location l h hroom.2 hdot).imp fun _ ha => Loc.sameAs_toNode ha

theorem gives_condition (e : Expr) (keyword : String)
    (h : c.Spells (.ofSymbol .leftParen :: (e.printed.lexemes ++ [.ofSymbol .rightParen])) d)
    (hroom : (Site.expression e).HasRoom limits c.depth) :
    Gives c (condition limits keyword) d fun a => a.toNode.sameAs e.toNode = true := by
  obtain ⟨-, -, hrest⟩ := h.cons
  obtain ⟨e', he, hclose⟩ := hrest.append
  have hkind : e'.current.kind = .symbol .rightParen := hclose.kind
  obtain ⟨-, -, hnil⟩ := hclose.cons
  obtain rfl := hnil.nil
  rw [← c.depth_advance] at hroom
  refine .expect h.kind (.bind (gives_expression_node e he hroom (by simp [hkind])) fun a ha => ?_)
  exact .expect hkind (.pure ha)

/-! ## Statements that begin with a name -/

/-- A statement whose name is not followed by a parenthesis begins with a location. -/
theorem kindAhead?_ne_of_loc {l : Loc} (h : c.Spells l.lexemes d)
    (hparen : d.current.kind ≠ .symbol .leftParen) :
    c.current.kind = .name ∧ c.kindAhead? 1 ≠ some (.symbol .leftParen) := by
  obtain ⟨⟨text, hl⟩, hahead⟩ := starts_location l h
  refine ⟨by rw [Token.kind, hl]; rfl, ?_⟩
  rcases hahead with hahead | ⟨hahead, -⟩
  · simp [hahead]
  · simpa [hahead] using hparen

theorem gives_assign (a : Assignment) (p : Position)
    (h : c.Spells (Stmt.assign a p).lexemes d)
    (hroom : (Site.expression a.toExpr).HasRoom limits c.depth) :
    c.current.kind = .name ∧ Gives c (nameStatement limits) d fun s =>
      s.toNode.sameAs (Stmt.assign a p).toNode = true := by
  obtain ⟨e, hwhole, hend⟩ := h.append
  have hwhole' : c.Spells (a.lhs.lexemes ++ .ofSymbol .assign :: a.rhs.printed.lexemes) e := hwhole
  obtain ⟨e', hlhs, hrhs⟩ := hwhole'.append
  have hsign : e'.current.kind = .symbol .assign := hrhs.kind
  obtain ⟨-, -, hrhs⟩ := hrhs.cons
  obtain ⟨hname, hahead⟩ := kindAhead?_ne_of_loc hlhs (by simp [hsign])
  obtain ⟨hdepth, hheight⟩ := hroom
  have hlow : limits.Admits a.lhs.height := hheight.mono (by
    simp only [Assignment.toExpr, Expr.height]
    omega)
  have hstands : (Written.assign a.lhs a.rhs.printed).StandsBefore e.current.kind := by
    rw [hend.kind]
    exact (Written.final_one_iff.2 (Written.goesOn_eq_false _ rfl (by decide))).standsBefore
      (Written.one_le_level _)
  have htree : (Written.assign a.lhs a.rhs.printed).tree = a.toExpr.unplaced :=
    a.toExpr.tree_printed
  refine ⟨hname, .current (.get ?_)⟩
  rw [if_neg hahead]
  refine .bind (gives_location a.lhs hlhs hlow (by simp [hsign])) fun l hl => .at? ?_
  rw [if_pos (decide_eq_true hsign)]
  refine .bind (P := fun b => b.toExpr.unplaced = a.toExpr.unplaced)
    (.measured fun steps => ?_) fun b hb => .bind (gives_semicolon hend _) fun _ _ => .pure ?_
  · rw [← htree]
    refine (readable limits a.rhs.printed).assignment hl a.rhs.proper_printed hsign hrhs hstands ?_ ?_
      steps
    · have hnesting : a.toExpr.printed.nesting = 1 + a.rhs.printed.nesting := rfl
      rw [hlhs.depth]
      omega
    · rwa [htree, Expr.height_unplaced]
  · simpa [Stmt.toNode, Assignment.toNode, Node.sameAs] using Expr.sameAs_toNode _ _ hb

theorem gives_call (x : Call) (p : Position) (h : c.Spells (Stmt.call x p).lexemes d)
    (hroom : (Site.expression x.toExpr).HasRoom limits c.depth) :
    c.current.kind = .name ∧ Gives c (nameStatement limits) d fun s =>
      s.toNode.sameAs (Stmt.call x p).toNode = true := by
  obtain ⟨e, hwhole, hend⟩ := h.append
  have hcall : c.Spells (Written.call x.callee.text (Expr.allPrinted x.args)).lexemes e := hwhole
  have htree : (Written.call x.callee.text (Expr.allPrinted x.args)).tree = x.toExpr.unplaced :=
    x.toExpr.tree_printed
  obtain ⟨hl, hahead⟩ := starts_call hcall
  obtain ⟨hdepth, hheight⟩ := hroom
  refine ⟨by rw [Token.kind, hl]; rfl, .current (.get ?_)⟩
  rw [if_pos hahead]
  refine .bind (P := fun b => b.toExpr.unplaced = x.toExpr.unplaced)
    (.measured fun steps => ?_) fun b hb => .bind (gives_semicolon hend _) fun _ _ => .pure ?_
  · rw [← htree]
    refine Readable.callAlone (allReadable limits _) (Expr.allProper_printed x.args) hcall ?_ ?_ steps
    · have hnesting : (Written.call x.callee.text (Expr.allPrinted x.args)).nesting =
          x.toExpr.printed.nesting := rfl
      omega
    · rwa [htree, Expr.height_unplaced]
  · simpa [Stmt.toNode, Call.toNode, Node.sameAs] using Expr.sameAs_toNode _ _ hb

theorem gives_increment (l : Loc) (p : Position) (h : c.Spells (Stmt.increment l p).lexemes d)
    (hroom : (Site.expression (.loc l)).HasRoom limits c.depth) :
    c.current.kind = .name ∧ Gives c (nameStatement limits) d fun s =>
      s.toNode.sameAs (Stmt.increment l p).toNode = true := by
  obtain ⟨e, hl, hsign⟩ := h.append
  have hkind : e.current.kind = .symbol .plusPlus := hsign.kind
  obtain ⟨-, -, hend⟩ := hsign.cons
  obtain ⟨hname, hahead⟩ := kindAhead?_ne_of_loc hl (by simp [hkind])
  refine ⟨hname, .current (.get ?_)⟩
  rw [if_neg hahead]
  refine .bind (gives_location_node l hl hroom (by simp [hkind])) fun a ha => .at? ?_
  rw [if_neg (by simp [hkind])]
  refine .accept hkind (.bind (gives_semicolon hend _) fun _ _ => .pure ?_)
  simpa [Stmt.toNode, Node.sameAs] using ha

theorem gives_decrement (l : Loc) (p : Position) (h : c.Spells (Stmt.decrement l p).lexemes d)
    (hroom : (Site.expression (.loc l)).HasRoom limits c.depth) :
    c.current.kind = .name ∧ Gives c (nameStatement limits) d fun s =>
      s.toNode.sameAs (Stmt.decrement l p).toNode = true := by
  obtain ⟨e, hl, hsign⟩ := h.append
  have hkind : e.current.kind = .symbol .minusMinus := hsign.kind
  obtain ⟨-, -, hend⟩ := hsign.cons
  obtain ⟨hname, hahead⟩ := kindAhead?_ne_of_loc hl (by simp [hkind])
  refine ⟨hname, .current (.get ?_)⟩
  rw [if_neg hahead]
  refine .bind (gives_location_node l hl hroom (by simp [hkind])) fun a ha => .at? ?_
  rw [if_neg (by simp [hkind])]
  refine .refuse (by simp [hkind]) (.accept hkind (.bind (gives_semicolon hend _) fun _ _ => .pure ?_))
  simpa [Stmt.toNode, Node.sameAs] using ha

/-! ## Statements and blocks -/

def statementKinds : List Kind :=
  [.name, .keyword .cin, .keyword .cout, .keyword .ifWord, .keyword .whileWord,
    .keyword .repeatWord, .keyword .returnWord]

theorem kind_mem_statementKinds (s : Stmt) (h : c.Spells (s.lexemes ++ ls) d) :
    c.current.kind ∈ statementKinds := by
  have hfirst : ∃ l more, s.lexemes = l :: more ∧ l.kind ∈ statementKinds := by
    have hloc : ∀ (l : Loc) (more : List Lexeme), ∃ l' more', l.lexemes ++ more = l' :: more' ∧
        l'.kind ∈ statementKinds := by
      intro l more
      obtain ⟨text, rest, hl⟩ := l.exists_lexemes_eq_cons
      exact ⟨.name text, rest ++ more, by rw [hl, List.cons_append], by
        simp [statementKinds, Lexeme.kind]⟩
    cases s with
    | assign a p =>
        have hlhs := hloc a.lhs (.ofSymbol .assign :: (a.rhs.printed.lexemes ++ [.ofSymbol .semicolon]))
        simpa [Stmt.lexemes, Assignment.toExpr, Expr.printed, Written.lexemes] using hlhs
    | increment l p => exact hloc l _
    | decrement l p => exact hloc l _
    | call x p => exact ⟨.name x.callee.text, _, rfl, by simp [statementKinds, Lexeme.kind]⟩
    | returnValue value p =>
        cases value <;> exact ⟨_, _, rfl, by decide⟩
    | _ => exact ⟨_, _, rfl, by decide⟩
  obtain ⟨l, more, hl, hk⟩ := hfirst
  rw [hl, List.cons_append] at h
  rwa [h.kind]

theorem kind_mem_of_statements {ss : List Stmt} (h : c.Spells (Stmt.allLexemes ss) d)
    (hend : d.current.kind = .symbol .rightCurly) :
    c.current.kind ∈ .symbol .rightCurly :: statementKinds := by
  cases ss with
  | nil =>
      obtain rfl := h.nil
      simp [hend]
  | cons s ss => exact List.mem_cons_of_mem _ (kind_mem_statementKinds s h)

mutual

theorem gives_statement (limits : Limits) : ∀ (s : Stmt) {c d : Cursor}, c.Spells s.lexemes d →
    AllHaveRoom limits (s.sites c.depth) → d.current.kind ≠ .keyword .elseWord → ∀ steps,
      Gives c (statementIn limits steps) d fun a => a.toNode.sameAs s.toNode = true
  | _, _, _, _, _, _, 0 => .exhausted
  | .assign a p, c, d, h, hroom, _, steps + 1 => by
    obtain ⟨hname, hgives⟩ := gives_assign a p h (allSites_cons.1 hroom).1
    refine .current ?_
    rw [hname]
    exact hgives
  | .increment l p, c, d, h, hroom, _, steps + 1 => by
    obtain ⟨hname, hgives⟩ := gives_increment l p h (allSites_cons.1 hroom).1
    refine .current ?_
    rw [hname]
    exact hgives
  | .decrement l p, c, d, h, hroom, _, steps + 1 => by
    obtain ⟨hname, hgives⟩ := gives_decrement l p h (allSites_cons.1 hroom).1
    refine .current ?_
    rw [hname]
    exact hgives
  | .call x p, c, d, h, hroom, _, steps + 1 => by
    obtain ⟨hname, hgives⟩ := gives_call x p h (allSites_cons.1 hroom).1
    refine .current ?_
    rw [hname]
    exact hgives
  | .read l p, c, d, h, hroom, _, steps + 1 => by
    obtain ⟨-, -, hsign⟩ := h.cons
    obtain ⟨-, -, hrest⟩ := hsign.cons
    obtain ⟨e, hl, hend⟩ := hrest.append
    have hroom := (allSites_cons.1 hroom).1
    rw [← c.depth_advance, ← c.advance.depth_advance] at hroom
    refine .current ?_
    rw [h.kind]
    refine .advance (.expect hsign.kind ?_)
    refine .bind (gives_location_node l hl hroom (by simp [hend.kind, Lexeme.kind, Lexeme.ofSymbol]))
      fun a ha => .bind (gives_semicolon hend _) fun _ _ => .pure ?_
    simpa [Stmt.toNode, Node.sameAs] using ha
  | .write x p, c, d, h, hroom, _, steps + 1 => by
    obtain ⟨-, -, hsign⟩ := h.cons
    obtain ⟨-, -, hrest⟩ := hsign.cons
    obtain ⟨e, hx, hend⟩ := hrest.append
    have hroom := (allSites_cons.1 hroom).1
    rw [← c.depth_advance, ← c.advance.depth_advance] at hroom
    refine .current ?_
    rw [h.kind]
    refine .advance (.expect hsign.kind ?_)
    refine .bind (gives_expression_node x hx hroom (by simp [hend.kind, Lexeme.kind, Lexeme.ofSymbol]))
      fun a ha => .bind (gives_semicolon hend _) fun _ _ => .pure ?_
    simpa [Stmt.toNode, Node.sameAs] using ha
  | .ifThen x b p, c, d, h, hroom, helse, steps + 1 => by
    obtain ⟨e, hword, hb⟩ := h.append
    obtain ⟨-, -, hx⟩ := hword.cons
    obtain ⟨hxroom, hbroom⟩ := allSites_cons.1 hroom
    rw [← c.depth_advance] at hxroom hbroom
    rw [← hx.depth] at hbroom
    refine .current ?_
    rw [h.kind]
    refine .advance (.bind (gives_condition x _ hx hxroom) fun a ha => ?_)
    refine .bind (gives_block limits b hb hbroom steps) fun a' ⟨hdecls, hstmts⟩ => .refuse helse (.pure ?_)
    simp [Stmt.toNode, Node.sameAs, ha, hdecls, hstmts]
  | .ifElse x b b' p, c, d, h, hroom, _, steps + 1 => by
    obtain ⟨e, hword, hrest⟩ := h.append
    obtain ⟨-, -, hx⟩ := hword.cons
    obtain ⟨e', hb, helse⟩ := hrest.append
    obtain ⟨-, -, hb'⟩ := helse.cons
    obtain ⟨hxroom, hrooms⟩ := allSites_cons.1 hroom
    obtain ⟨hbroom, hb'room⟩ := allSites_append.1 hrooms
    rw [← c.depth_advance] at hxroom hbroom hb'room
    rw [← hx.depth] at hbroom hb'room
    rw [← hb.depth, ← e'.depth_advance] at hb'room
    refine .current ?_
    rw [h.kind]
    refine .advance (.bind (gives_condition x _ hx hxroom) fun a ha => ?_)
    refine .bind (gives_block limits b hb hbroom steps) fun a' ⟨hdecls, hstmts⟩ => ?_
    refine .accept helse.kind ?_
    refine .bind (gives_block limits b' hb' hb'room steps) fun a'' ⟨hdecls', hstmts'⟩ => .pure ?_
    simp [Stmt.toNode, Node.sameAs, ha, hdecls, hstmts, hdecls', hstmts']
  | .whileLoop x b p, c, d, h, hroom, _, steps + 1 => by
    obtain ⟨e, hword, hb⟩ := h.append
    obtain ⟨-, -, hx⟩ := hword.cons
    obtain ⟨hxroom, hbroom⟩ := allSites_cons.1 hroom
    rw [← c.depth_advance] at hxroom hbroom
    rw [← hx.depth] at hbroom
    refine .current ?_
    rw [h.kind]
    refine .advance (.bind (gives_condition x _ hx hxroom) fun a ha => ?_)
    refine .bind (gives_block limits b hb hbroom steps) fun a' ⟨hdecls, hstmts⟩ => .pure ?_
    simp [Stmt.toNode, Node.sameAs, ha, hdecls, hstmts]
  | .repeatLoop x b p, c, d, h, hroom, _, steps + 1 => by
    obtain ⟨e, hword, hb⟩ := h.append
    obtain ⟨-, -, hx⟩ := hword.cons
    obtain ⟨hxroom, hbroom⟩ := allSites_cons.1 hroom
    rw [← c.depth_advance] at hxroom hbroom
    rw [← hx.depth] at hbroom
    refine .current ?_
    rw [h.kind]
    refine .advance (.bind (gives_condition x _ hx hxroom) fun a ha => ?_)
    refine .bind (gives_block limits b hb hbroom steps) fun a' ⟨hdecls, hstmts⟩ => .pure ?_
    simp [Stmt.toNode, Node.sameAs, ha, hdecls, hstmts]
  | .returnValue none p, c, d, h, _, _, steps + 1 => by
    obtain ⟨-, -, hend⟩ := h.cons
    obtain ⟨-, -, hnil⟩ := hend.cons
    obtain rfl := hnil.nil
    refine .current ?_
    rw [h.kind]
    refine .advance (.accept hend.kind (.pure ?_))
    simp [Stmt.toNode, Node.sameAs]
  | .returnValue (some x) p, c, d, h, hroom, _, steps + 1 => by
    obtain ⟨-, -, hrest⟩ := h.cons
    obtain ⟨e, hx, hend⟩ := hrest.append
    have hroom := (allSites_cons.1 hroom).1
    rw [← c.depth_advance] at hroom
    have hstart : c.advance.current.kind ≠ .symbol .semicolon := by
      obtain ⟨l, more, hl, hk⟩ := x.printed.exists_lexemes_eq_cons
      rw [hl] at hx
      rw [hx.kind]
      simp_all
    refine .current ?_
    rw [h.kind]
    refine .advance (.refuse hstart ?_)
    refine .bind (gives_expression_node x hx hroom (by simp [hend.kind, Lexeme.kind, Lexeme.ofSymbol]))
      fun a ha => .bind (gives_semicolon hend _) fun _ _ => .pure ?_
    simpa [Stmt.toNode, Node.sameAs] using ha

theorem gives_statements (limits : Limits) : ∀ (ss : List Stmt) {c d : Cursor},
    c.Spells (Stmt.allLexemes ss) d → AllHaveRoom limits (Stmt.allSites c.depth ss) →
      d.current.kind = .symbol .rightCurly → ∀ steps,
        Gives c (statementsIn limits steps) d fun as =>
          Node.allSameAs (Stmt.toNodes as) (Stmt.toNodes ss) = true
  | _, _, _, _, _, _, 0 => .exhausted
  | [], c, d, h, _, hend, steps + 1 => by
    obtain rfl := h.nil
    refine .at? ?_
    rw [if_pos (decide_eq_true hend)]
    exact .pure rfl
  | s :: ss, c, d, h, hroom, hend, steps + 1 => by
    obtain ⟨e, hs, hss⟩ := h.append
    obtain ⟨hroom, hrooms⟩ := allSites_append.1 hroom
    rw [← hs.depth] at hrooms
    have hstart := kind_mem_statementKinds s h
    have hnext := kind_mem_of_statements hss hend
    refine .at? ?_
    rw [if_neg]
    · refine .bind (gives_statement limits s hs hroom ?_ steps) fun a ha => ?_
      · intro helse
        rw [helse] at hnext
        exact absurd hnext (by decide)
      · refine .bind (gives_statements limits ss hss hrooms hend steps) fun as has => .pure ?_
        simp [Stmt.toNodes, Node.allSameAs, ha, has]
    · intro hclose
      rw [of_decide_eq_true hclose] at hstart
      exact absurd hstart (by decide)

theorem gives_block (limits : Limits) : ∀ (b : Block) {c d : Cursor}, c.Spells b.lexemes d →
    AllHaveRoom limits (b.sites c.depth) → ∀ steps,
      Gives c (blockIn limits steps) d fun a =>
        a.declsNode.sameAs b.declsNode = true ∧ a.stmtsNode.sameAs b.stmtsNode = true
  | _, _, _, _, _, 0 => .exhausted
  | .mk decls stmts p, c, d, h, hroom, steps + 1 => by
    obtain ⟨-, -, hrest⟩ := h.cons
    obtain ⟨e, hdecls, hrest⟩ := hrest.append
    obtain ⟨e', hstmts, hclose⟩ := hrest.append
    have hend : e'.current.kind = .symbol .rightCurly := hclose.kind
    obtain ⟨-, -, hnil⟩ := hclose.deeper.cons
    obtain ⟨hdepth, hrooms⟩ := allSites_cons.1 hroom
    obtain ⟨-, hrooms⟩ := allSites_append.1 hrooms
    have hinside : e.deeper.depth = c.depth + 1 := by
      rw [← c.depth_advance, ← hdecls.depth]
      rfl
    rw [← hinside] at hrooms
    have hnext : e.current.kind.startsVariable = false := by
      have hmem := kind_mem_of_statements hstmts hend
      generalize e.current.kind = k at hmem
      revert k
      decide
    refine .expect h.kind (.nested ?_ ?_)
    · rw [c.depth_advance]
      exact hdepth
    · refine .bind (gives_variableDecls decls hdecls.deeper hnext) fun as has => .current ?_
      refine .bind (gives_statements limits stmts hstmts.deeper hrooms hend steps) fun as' has' => ?_
      refine .expect hend ?_
      rw [hnil.nil]
      exact .pure ⟨has, by simpa [Block.stmtsNode, Node.sameAs] using has'⟩

end

/-! ## Declarations -/

theorem gives_body (b : Body) (h : c.Spells b.block.lexemes d)
    (hroom : AllHaveRoom limits (b.block.sites c.depth)) :
    Gives c (body limits) d fun a => a.toNode.sameAs b.toNode = true := by
  refine .current (.bind (.measured (p := blockIn limits) (gives_block limits b.block h hroom))
    fun a ⟨hdecls, hstmts⟩ => .pure ?_)
  simp [Body.toNode, Node.sameAs, hdecls, hstmts]

theorem gives_functionDecl (f : FunctionDecl) (h : c.Spells (Decl.functionDecl f).lexemes d)
    (hroom : AllHaveRoom limits (f.body.block.sites c.depth)) :
    Gives c (primitiveDeclaration limits) d fun a =>
      a.toNode.sameAs (Decl.functionDecl f).toNode = true := by
  obtain ⟨-, -, hid⟩ := h.cons
  obtain ⟨-, -, hrest⟩ := hid.cons
  obtain ⟨e, hformals, hbody⟩ := hrest.append
  have hparen : c.advance.advance.current.kind = .symbol .leftParen := hformals.kind
  rw [← c.depth_advance, ← c.advance.depth_advance, ← hformals.depth] at hroom
  refine .current (.bind (gives_primitive h) fun type htype => ?_)
  refine .bind (gives_name_node hid _) fun id hid => .at? ?_
  rw [if_pos (decide_eq_true hparen)]
  refine .bind (gives_formals f.formals hformals) fun fs hfs => ?_
  refine .bind (gives_body f.body hbody hroom) fun b hb => .pure ?_
  simp [Decl.toNode, FunctionDecl.toNode, Node.sameAs, htype, hid, hfs, hb]

theorem gives_globalDecl (v : VariableDecl) {type : Primitive} (htype : v.type = .primitive type)
    (h : c.Spells v.lexemes d) :
    Gives c (primitiveDeclaration limits) d fun a => a.toNode.sameAs v.toNode = true := by
  rw [VariableDecl.lexemes, htype, VariableType.lexemes, List.singleton_append] at h
  obtain ⟨-, -, hid⟩ := h.cons
  obtain ⟨-, -, hend⟩ := hid.cons
  refine .current (.bind (gives_primitive h) fun type' htype' => ?_)
  refine .bind (gives_name_node hid _) fun id hid => .at? ?_
  rw [if_neg (by simp [hend.kind, Lexeme.kind, Lexeme.ofSymbol])]
  refine .bind (gives_semicolon hend _) fun _ _ => .pure ?_
  simp [Decl.toNode, VariableDecl.toNode, Node.sameAs, htype, htype', VariableType.toNode,
    VariableType.size, hid]

theorem Gives.atPrimitive {β : Type} {f : Bool → Parser β} {e : Cursor} {R : β → Prop}
    {type : Primitive} (hk : c.current.kind = .keyword type.keyword) (h : Gives c (f true) e R) :
    Gives c (atPrimitive >>= f) e R := by
  have hsome : (Primitive.ofKind? c.current.kind).isSome = true := by
    rw [hk, Primitive.ofKind?_keyword]
    rfl
  change Gives c (f (Primitive.ofKind? c.current.kind).isSome) e R
  rwa [hsome]

theorem gives_declaration (x : Decl) (h : c.Spells x.lexemes d) (hc : c.depth = 0)
    (hroom : AllHaveRoom limits x.sites) :
    Gives c (declaration limits) d fun a => a.toNode.sameAs x.toNode = true := by
  cases x with
  | variableDecl v =>
      have hv : c.Spells v.lexemes d := h
      cases htype : v.type with
      | primitive type =>
          have hk : c.current.kind = .keyword type.keyword := by
            rw [VariableDecl.lexemes, htype, VariableType.lexemes, List.singleton_append] at hv
            exact hv.kind
          refine .at? ?_
          rw [if_neg (by simp [hk, Primitive.keyword_ne_struct])]
          exact .atPrimitive hk (gives_globalDecl v htype hv)
      | struct id =>
          rw [VariableDecl.lexemes, htype, VariableType.lexemes] at hv
          have hk : c.current.kind = .keyword .struct := hv.kind
          obtain ⟨-, -, hid⟩ := hv.cons
          obtain ⟨-, -, hname⟩ := hid.cons
          have hahead : c.kindAhead? 2 ≠ some (.symbol .leftCurly) := by
            rw [hv.kindAhead?_two, hname.kind]
            simp [Lexeme.kind]
          refine .at? ?_
          rw [if_pos (decide_eq_true hk)]
          refine .get ?_
          rw [if_neg hahead]
          exact .bind (gives_variableDecl v h) fun a ha => .pure ha
  | functionDecl f =>
      have hk : c.current.kind = .keyword f.type.keyword := h.kind
      refine .at? ?_
      rw [if_neg (by simp [hk, Primitive.keyword_ne_struct])]
      refine .atPrimitive hk (gives_functionDecl f h ?_)
      rw [hc]
      exact (allSites_append.1 hroom).2
  | structDecl s =>
      obtain ⟨-, -, hid⟩ := h.cons
      obtain ⟨-, -, hopen⟩ := hid.cons
      have hk : c.current.kind = .keyword .struct := h.kind
      have hahead : c.kindAhead? 2 = some (.symbol .leftCurly) := by
        rw [h.kindAhead?_two, hopen.kind]
        rfl
      refine .at? ?_
      rw [if_pos (decide_eq_true hk)]
      refine .get ?_
      rw [if_pos hahead]
      exact .bind (gives_structDecl s h) fun a ha => .pure ha

theorem gives_declarationsIn (xs : List Decl) (h : c.Spells (xs.flatMap Decl.lexemes) d)
    (hc : c.depth = 0) (hroom : AllHaveRoom limits (xs.flatMap Decl.sites))
    (hend : d.current.kind = .endOfInput) (steps : Nat) :
    Gives c (declarationsIn limits steps) d fun as =>
      Node.allSameAs (as.map Decl.toNode) (xs.map Decl.toNode) = true := by
  induction xs generalizing c steps with
  | nil =>
      obtain rfl := h.nil
      cases steps with
      | zero => exact .exhausted
      | succ steps =>
          refine .at? ?_
          rw [if_pos (decide_eq_true hend)]
          exact .pure rfl
  | cons x xs ih =>
      rw [List.flatMap_cons] at h hroom
      obtain ⟨e, hx, hxs⟩ := h.append
      obtain ⟨hroom, hrooms⟩ := allSites_append.1 hroom
      cases steps with
      | zero => exact .exhausted
      | succ steps =>
          obtain ⟨l, more, hl⟩ := x.exists_lexemes_eq_cons
          rw [hl, List.cons_append] at h
          obtain ⟨-, hinside, -⟩ := h.cons
          refine .at? ?_
          rw [if_neg (by simpa using hinside)]
          refine .bind (gives_declaration x hx hc hroom) fun a ha => ?_
          refine .bind (ih hxs (hx.depth.trans hc) hrooms steps) fun as has => .pure ?_
          simp [Node.allSameAs, ha, has]

theorem gives_program (p : Program) (h : c.Spells p.lexemes d) (hc : c.depth = 0)
    (hroom : AllHaveRoom limits p.sites) (hend : d.current.kind = .endOfInput) :
    Gives c (program limits) d fun a => a.toNode.sameAs p.toNode = true :=
  .current (.bind (.measured (gives_declarationsIn p.decls h hc hroom hend)) fun as has =>
    .pure (by simpa [Program.toNode, Node.sameAs] using has))

end Parser

end Cmm

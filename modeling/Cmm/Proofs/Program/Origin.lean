import Cmm.Proofs.Expr.Origin
import Cmm.Proofs.Program.Printed

/-!
# Where the parts of a program come from

What stands at the sites of a program was read: its names, numbers and strings are among the tokens
that were taken, its expressions are as high as is allowed and its blocks as deep.
-/

namespace Cmm

/-- Whether a site can come from some lexemes within the limits. -/
def Site.BuiltFrom (limits : Limits) (ls : List Lexeme) (depth : Nat) : Site → Prop
  | .name id => .name id.text ∈ ls
  | .expression e => e.BuiltFrom limits ls
  | .block => (depth : Int) ≤ limits.depth

def AllNamed (ls : List Lexeme) (ids : List Name) : Prop :=
  ∀ id ∈ ids, Lexeme.name id.text ∈ ls

abbrev AllBuiltFrom (limits : Limits) (ls : List Lexeme) : List (Nat × Site) → Prop :=
  AllSites (Site.BuiltFrom limits ls)

section Lists

variable {limits : Limits} {ls ls' : List Lexeme} {ids ids' : List Name}
  {sites : List (Nat × Site)}

theorem AllNamed.mono (h : AllNamed ls ids) (hls : ls ⊆ ls') : AllNamed ls' ids :=
  fun id hid => hls (h id hid)

@[simp] theorem allNamed_nil : AllNamed ls [] := nofun

@[simp] theorem allNamed_cons {id : Name} :
    AllNamed ls (id :: ids) ↔ Lexeme.name id.text ∈ ls ∧ AllNamed ls ids :=
  List.forall_mem_cons

@[simp] theorem allNamed_append : AllNamed ls (ids ++ ids') ↔ AllNamed ls ids ∧ AllNamed ls ids' :=
  List.forall_mem_append

theorem Site.BuiltFrom.mono {depth : Nat} {site : Site} (h : site.BuiltFrom limits ls depth)
    (hls : ls ⊆ ls') : site.BuiltFrom limits ls' depth := by
  cases site with
  | name id => exact hls h
  | expression e => exact Expr.BuiltFrom.mono h hls
  | block => exact h

theorem AllBuiltFrom.mono (h : AllBuiltFrom limits ls sites) (hls : ls ⊆ ls') :
    AllBuiltFrom limits ls' sites :=
  h.imp fun _ _ hsite => hsite.mono hls

theorem allBuiltFrom_names {depth : Nat} :
    AllBuiltFrom limits ls (ids.map fun id => (depth, .name id)) ↔ AllNamed ls ids :=
  allSites_names

end Lists

namespace Parser

variable {limits : Limits} {steps : Nat} {c : Cursor}

/-! ## Variables -/

theorem yields_name_mem (c : Cursor) (message : String) :
    Yields c (name message) fun id u _ => .name id.text ∈ u.map Token.plain := by
  refine (yields_name c message).yields ?_
  intro id u d _ hid
  simp [hid]

theorem yields_semicolon (c : Cursor) (message : String) :
    Yields c (semicolon message) fun _ _ _ => True :=
  .expect (by simp) (fun _ => .pure trivial) fun _ => trivial

theorem yields_primitive (c : Cursor) : Yields c primitive fun _ _ _ => True := by
  refine .current ?_
  split
  · rename_i type htype
    exact .advance (by simp [Primitive.eq_keyword_of_ofKind? htype]) (.pure trivial)
  · exact .fail trivial

theorem yields_names_variableDecl (c : Cursor) :
    Yields c variableDecl fun v u _ => AllNamed (u.map Token.plain) v.names := by
  have hclose : ∀ (d : Cursor) (type : VariableType) (u : List Token),
      AllNamed (u.map Token.plain) type.names → Yields d (do
        let id ← name "Expected identifier"
        semicolon "Expected ';' after declaration"
        return (⟨type, id, c.current.position⟩ : VariableDecl))
        fun v w _ => AllNamed ((u ++ w).map Token.plain) v.names := by
    intro d type u htype
    refine .bind (yields_name_mem d _) fun id v e _ hid => ?_
    refine .bind (yields_semicolon e _) fun _ w e' _ _ => .pure ?_
    simp only [VariableDecl.names, allNamed_append, allNamed_cons, List.map_append]
    exact ⟨htype.mono (by simp), by simp [hid], allNamed_nil⟩
  refine .current (.accept (by simp) (fun _ => ?_) fun _ => ?_)
  · have htype : Yields c.advance (VariableType.struct <$> name "Expected struct name")
        fun type u _ => AllNamed (u.map Token.plain) type.names :=
      .map ((yields_name_mem _ _).yields fun id u d _ hid => by
        simpa [VariableType.names] using hid)
    refine .bind htype fun type u d _ htype => ?_
    exact hclose d type (c.current :: u) (htype.mono (by simp))
  · have htype : Yields c (VariableType.primitive <$> primitive)
        fun type u _ => AllNamed (u.map Token.plain) type.names :=
      .map ((yields_primitive c).yields fun _ _ _ _ _ => allNamed_nil)
    exact .bind htype fun type u d _ htype => hclose d type u htype

theorem yields_names_variableDeclsIn (c : Cursor) :
    Yields c (variableDeclsIn steps) fun vs u _ =>
      AllNamed (u.map Token.plain) (vs.flatMap VariableDecl.names) := by
  induction steps generalizing c with
  | zero => exact .exhausted trivial
  | succ steps ih =>
      change Runs c (if _ then _ else _) _ _
      split
      · refine .bind (yields_names_variableDecl c) fun v u d _ hv => ?_
        refine .bind (ih d) fun vs w e _ hvs => .pure ?_
        simp only [List.flatMap_cons, allNamed_append]
        exact ⟨hv.mono (by simp), hvs.mono (by simp)⟩
      · exact .pure allNamed_nil

theorem yields_names_variableDecls (c : Cursor) :
    Yields c variableDecls fun vs u _ =>
      AllNamed (u.map Token.plain) (vs.items.flatMap VariableDecl.names) := by
  refine .current (.bind (.measured (yields_names_variableDeclsIn c)) fun vs u d _ hvs => .pure ?_)
  exact hvs.mono (by simp)

theorem yields_names_field (c : Cursor) :
    Yields c field fun v u _ => AllNamed (u.map Token.plain) v.names := by
  change Runs c (if _ then _ else _) _ _
  split
  · exact yields_names_variableDecl c
  · exact .fail trivial

theorem yields_names_fieldsIn (c : Cursor) :
    Yields c (fieldsIn steps) fun vs u _ =>
      AllNamed (u.map Token.plain) (vs.flatMap VariableDecl.names) := by
  induction steps generalizing c with
  | zero => exact .exhausted trivial
  | succ steps ih =>
      refine .at? ?_
      split
      · exact .pure allNamed_nil
      · refine .bind (yields_names_field c) fun v u d _ hv => ?_
        refine .bind (ih d) fun vs w e _ hvs => .pure ?_
        simp only [List.flatMap_cons, allNamed_append]
        exact ⟨hv.mono (by simp), hvs.mono (by simp)⟩

theorem yields_names_structDecl (c : Cursor) :
    Yields c structDecl fun s u _ =>
      AllNamed (u.map Token.plain) (Decl.structDecl s).names := by
  refine .expect (by simp) (fun _ => ?_) fun _ => trivial
  refine .bind (yields_name_mem _ _) fun id u d _ hid => ?_
  refine .expect (by simp) (fun _ => ?_) fun _ => trivial
  refine .bind (yields_names_field _) fun v w e _ hv => ?_
  refine .bind (.measured (yields_names_fieldsIn e)) fun vs w' e' _ hvs => ?_
  refine .expect (by simp) (fun _ => ?_) fun _ => trivial
  refine .bind (yields_semicolon _ _) fun _ _ _ _ _ => .pure ?_
  simp only [Decl.names, List.flatMap_cons, allNamed_cons, allNamed_append, List.map_cons,
    List.map_append]
  exact ⟨by simp [hid], hv.mono fun x hx => by simp [hx], hvs.mono fun x hx => by simp [hx]⟩

theorem yields_names_formal (c : Cursor) :
    Yields c formal fun f u _ => .name f.id.text ∈ u.map Token.plain := by
  refine .current (.bind (yields_primitive c) fun type u d _ _ => ?_)
  refine .bind (yields_name_mem d _) fun id v e _ hid => .pure ?_
  simp [hid]

theorem yields_names_formalsIn (c : Cursor) :
    Yields c (formalsIn steps) fun fs u _ =>
      AllNamed (u.map Token.plain) (fs.map Formal.id) := by
  induction steps generalizing c with
  | zero => exact .exhausted trivial
  | succ steps ih =>
      refine .bind (yields_names_formal c) fun f u d _ hf => ?_
      refine .accept (by simp) (fun _ => ?_) fun _ => .pure ?_
      · refine .bind (ih d.advance) fun fs v e _ hfs => .pure ?_
        simp only [List.map_cons, allNamed_cons, List.map_append]
        exact ⟨by simp [hf], hfs.mono (by simp)⟩
      · simp [hf]

theorem yields_names_formals (c : Cursor) :
    Yields c formals fun fs u _ => AllNamed (u.map Token.plain) (fs.items.map Formal.id) := by
  refine .expect (by simp) (fun _ => ?_) fun _ => trivial
  have hitems : Yields c.advance
      (if decide (c.advance.current.kind = .symbol .rightParen) = true then Pure.pure []
        else measured formalsIn)
      fun fs u _ => AllNamed (u.map Token.plain) (fs.map Formal.id) := by
    split
    · exact .pure allNamed_nil
    · exact .measured (yields_names_formalsIn _)
  refine .at? (.ite_bind (.bind hitems fun fs u d _ hfs => ?_))
  refine .expect (by simp) (fun _ => .pure (hfs.mono (by simp))) fun _ => trivial

/-! ## Statements -/

theorem yields_builtFrom_condition (c : Cursor) (keyword : String) :
    Yields c (condition limits keyword) fun e u _ => e.BuiltFrom limits (u.map Token.plain) := by
  refine .expect (by simp) (fun _ => ?_) fun _ => trivial
  refine .bind (yields_builtFrom_expression _) fun e u d _ he => ?_
  exact .expect (by simp) (fun _ => .pure (he.mono fun x hx => by simp [hx])) fun _ => trivial

theorem yields_sites_nameStatement (c : Cursor) (depth : Nat) :
    Yields c (nameStatement limits) fun s u _ =>
      AllBuiltFrom limits (u.map Token.plain) (s.sites depth) := by
  refine .current (.get ?_)
  split
  · refine .bind (yields_builtFrom_call c) fun e u d _ he => ?_
    refine .bind (yields_semicolon d _) fun _ v _ _ _ => .pure ?_
    exact allSites_cons.2 ⟨he.mono (by simp), allSites_nil⟩
  · refine .bind (yields_builtFrom_location c) fun l u d _ ⟨hplain, hl⟩ => .at? ?_
    split
    · refine .bind (yields_builtFrom_assignment d hplain) fun a v e _ ha => ?_
      refine .bind (yields_semicolon e _) fun _ w _ _ _ => .pure ?_
      exact allSites_cons.2 ⟨ha.mono (by simp), allSites_nil⟩
    refine .accept (by simp) (fun _ => ?_) fun _ => .accept (by simp) (fun _ => ?_) fun _ => ?_
    · refine .bind (yields_semicolon _ _) fun _ w _ _ _ => .pure ?_
      exact allSites_cons.2 ⟨hl.mono (by simp), allSites_nil⟩
    · refine .bind (yields_semicolon _ _) fun _ w _ _ _ => .pure ?_
      exact allSites_cons.2 ⟨hl.mono (by simp), allSites_nil⟩
    · exact .fail trivial

structure StmtOrigin (limits : Limits) (steps : Nat) : Prop where
  block : ∀ c : Cursor, Yields c (blockIn limits steps) fun b u _ =>
    AllBuiltFrom limits (u.map Token.plain) (b.sites c.depth)
  statements : ∀ c : Cursor, Yields c (statementsIn limits steps) fun ss u _ =>
    AllBuiltFrom limits (u.map Token.plain) (Stmt.allSites c.depth ss)
  statement : ∀ c : Cursor, Yields c (statementIn limits steps) fun s u _ =>
    AllBuiltFrom limits (u.map Token.plain) (s.sites c.depth)

namespace StmtOrigin

theorem zero : StmtOrigin limits 0 where
  block _ := .exhausted trivial
  statements _ := .exhausted trivial
  statement _ := .exhausted trivial

variable (h : StmtOrigin limits steps)

include h

theorem yields_block (c : Cursor) :
    Yields c (blockIn limits (steps + 1)) fun b u _ =>
      AllBuiltFrom limits (u.map Token.plain) (b.sites c.depth) := by
  refine .expect (by simp) (fun _ => .nested (fun hdepth => ?_) fun _ => trivial) fun _ => trivial
  refine .bind (yields_names_variableDecls _) fun decls u d hu hdecls => .current ?_
  refine .bind (h.statements d) fun ss v e _ hss => ?_
  refine .expect (by simp) (fun _ => .pure ?_) fun _ => trivial
  have hnested : c.advance.deeper.depth = c.depth + 1 := congrArg (· + 1) c.depth_advance
  rw [hu.depth, hnested] at hss
  rw [c.depth_advance] at hdepth
  simp only [Block.sites, List.cons_append, allSites_cons, allSites_append,
    allBuiltFrom_names]
  refine ⟨?_, hdecls.mono fun x hx => by simp [hx], hss.mono fun x hx => by simp [hx]⟩
  exact Int.not_lt.1 hdepth

theorem yields_statements (c : Cursor) :
    Yields c (statementsIn limits (steps + 1)) fun ss u _ =>
      AllBuiltFrom limits (u.map Token.plain) (Stmt.allSites c.depth ss) := by
  refine .at? ?_
  split
  · exact .pure allSites_nil
  · refine .bind (h.statement c) fun s u d hu hs => ?_
    refine .bind (h.statements d) fun ss v e _ hss => .pure ?_
    rw [hu.depth] at hss
    simp only [Stmt.allSites, allSites_append]
    exact ⟨hs.mono (by simp), hss.mono (by simp)⟩

theorem yields_conditional (c : Cursor) (keyword : String) (p : Position)
    {make : Expr → Block → Position → Stmt}
    (hsites : ∀ e b, (make e b p).sites c.depth = (c.depth, .expression e) :: b.sites c.depth) :
    Yields c (do
      let e ← condition limits keyword
      return make e (← blockIn limits steps) p) fun s u _ =>
      AllBuiltFrom limits (u.map Token.plain) (s.sites c.depth) := by
  refine .bind (yields_builtFrom_condition c keyword) fun e u d hu he => ?_
  refine .bind (h.block d) fun b v e' _ hb => .pure ?_
  rw [hu.depth] at hb
  rw [hsites]
  exact allSites_cons.2 ⟨he.mono (by simp), hb.mono (by simp)⟩

theorem yields_statement (c : Cursor) :
    Yields c (statementIn limits (steps + 1)) fun s u _ =>
      AllBuiltFrom limits (u.map Token.plain) (s.sites c.depth) := by
  refine .current ?_
  split
  any_goals exact .fail trivial
  · rename_i hk
    refine .advance (by simp [hk]) (.expect (by simp) (fun _ => ?_) fun _ => trivial)
    refine .bind (yields_builtFrom_location _) fun l u d _ ⟨_, hl⟩ => ?_
    refine .bind (yields_semicolon d _) fun _ v _ _ _ => .pure ?_
    exact allSites_cons.2 ⟨hl.mono fun x hx => by simp [hx], allSites_nil⟩
  · rename_i hk
    refine .advance (by simp [hk]) (.expect (by simp) (fun _ => ?_) fun _ => trivial)
    refine .bind (yields_builtFrom_expression _) fun e u d _ he => ?_
    refine .bind (yields_semicolon d _) fun _ v _ _ _ => .pure ?_
    exact allSites_cons.2 ⟨he.mono fun x hx => by simp [hx], allSites_nil⟩
  · rename_i hk
    refine .advance (by simp [hk]) ?_
    refine .bind (yields_builtFrom_condition _ _) fun e u d hu he => ?_
    refine .bind (h.block d) fun b v d' hv hb => ?_
    rw [hu.depth, c.depth_advance] at hb
    refine .accept (by simp) (fun _ => ?_) fun _ => .pure ?_
    · refine .bind (h.block _) fun b' w e' _ hb' => .pure ?_
      rw [d'.depth_advance, hv.depth, hu.depth, c.depth_advance] at hb'
      simp only [Stmt.sites, allSites_cons, allSites_append]
      exact ⟨he.mono fun x hx => by simp [hx], hb.mono fun x hx => by simp [hx],
        hb'.mono fun x hx => by simp [hx]⟩
    · simp only [Stmt.sites, allSites_cons]
      exact ⟨he.mono fun x hx => by simp [hx], hb.mono fun x hx => by simp [hx]⟩
  · rename_i hk
    refine .advance (by simp [hk]) ((h.yields_conditional _ _ _ fun _ _ => rfl).yields ?_)
    intro s u d _ hs
    rw [c.depth_advance] at hs
    exact hs.mono (List.subset_cons_self _ _)
  · rename_i hk
    refine .advance (by simp [hk]) ((h.yields_conditional _ _ _ fun _ _ => rfl).yields ?_)
    intro s u d _ hs
    rw [c.depth_advance] at hs
    exact hs.mono (List.subset_cons_self _ _)
  · rename_i hk
    refine .advance (by simp [hk]) (.accept (by simp) (fun _ => .pure allSites_nil) fun _ => ?_)
    refine .bind (yields_builtFrom_expression _) fun e u d _ he => ?_
    refine .bind (yields_semicolon d _) fun _ v _ _ _ => .pure ?_
    exact allSites_cons.2 ⟨he.mono fun x hx => by simp [hx], allSites_nil⟩
  · exact yields_sites_nameStatement c c.depth

theorem succ : StmtOrigin limits (steps + 1) where
  block c := h.yields_block c
  statements c := h.yields_statements c
  statement c := h.yields_statement c

end StmtOrigin

theorem stmtOrigin (limits : Limits) (steps : Nat) : StmtOrigin limits steps := by
  induction steps with
  | zero => exact StmtOrigin.zero
  | succ steps ih => exact ih.succ

/-! ## Declarations -/

theorem yields_sites_body (c : Cursor) :
    Yields c (body limits) fun b u _ =>
      AllBuiltFrom limits (u.map Token.plain) (b.block.sites c.depth) := by
  have hblock : Yields c (block limits) fun b u _ =>
      AllBuiltFrom limits (u.map Token.plain) (b.sites c.depth) :=
    .measured (p := blockIn limits) ((stmtOrigin limits _).block c)
  exact .current (.bind hblock fun b u d _ hb => .pure (hb.mono (by simp)))

theorem yields_sites_primitiveDeclaration (c : Cursor) (hc : c.depth = 0) :
    Yields c (primitiveDeclaration limits) fun x u _ =>
      AllBuiltFrom limits (u.map Token.plain) x.sites := by
  refine .current (.bind (yields_primitive c) fun type u d hu _ => ?_)
  refine .bind (yields_name_mem d _) fun id v e hv hid => .at? ?_
  split
  · refine .bind (yields_names_formals e) fun fs w e' hw hfs => ?_
    refine .bind (yields_sites_body e') fun b w' _ _ hb => .pure ?_
    rw [hw.depth, hv.depth, hu.depth, hc] at hb
    simp only [Decl.sites, Decl.names, allSites_append, allBuiltFrom_names, allNamed_cons]
    exact ⟨⟨by simp [hid], hfs.mono fun x hx => by simp [hx]⟩, hb.mono fun x hx => by simp [hx]⟩
  · refine .bind (yields_semicolon e _) fun _ w _ _ _ => .pure ?_
    simp [Decl.sites, Decl.names, VariableDecl.names, VariableType.names, Site.BuiltFrom, hid]

theorem yields_sites_declaration (c : Cursor) (hc : c.depth = 0) :
    Yields c (declaration limits) fun x u _ =>
      AllBuiltFrom limits (u.map Token.plain) x.sites := by
  refine .at? ?_
  split
  · refine .get ?_
    split
    · refine .bind (yields_names_structDecl c) fun s u d _ hs => .pure ?_
      simp only [Decl.sites, List.append_nil, allBuiltFrom_names]
      exact hs.mono (by simp)
    · refine .bind (yields_names_variableDecl c) fun v u d _ hv => .pure ?_
      simp only [Decl.sites, List.append_nil, allBuiltFrom_names]
      exact hv.mono (by simp)
  · change Runs c (if _ then _ else _) _ _
    split
    · exact yields_sites_primitiveDeclaration c hc
    · exact .fail trivial

theorem yields_sites_declarationsIn (c : Cursor) (hc : c.depth = 0) :
    Yields c (declarationsIn limits steps) fun ds u _ =>
      AllBuiltFrom limits (u.map Token.plain) (ds.flatMap Decl.sites) := by
  induction steps generalizing c with
  | zero => exact .exhausted trivial
  | succ steps ih =>
      refine .at? ?_
      split
      · exact .pure allSites_nil
      · refine .bind (yields_sites_declaration c hc) fun x u d hu hx => ?_
        refine .bind (ih d (hu.depth.trans hc)) fun ds v e _ hds => .pure ?_
        simp only [List.flatMap_cons, allSites_append]
        exact ⟨hx.mono (by simp), hds.mono (by simp)⟩

theorem yields_sites_program (c : Cursor) (hc : c.depth = 0) :
    Yields c (program limits) fun p u _ =>
      AllBuiltFrom limits (u.map Token.plain) p.sites :=
  .current (.bind (.measured (yields_sites_declarationsIn c hc)) fun _ _ _ _ h =>
    .pure (h.mono (by simp)))

end Parser

end Cmm

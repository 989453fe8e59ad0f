import Cmm.Proofs.Node.Indentation
import Cmm.Proofs.Node.WellFormed
import Cmm.Proofs.Program.RoundTrip

/-!
# Which trees are read

The tree of a program that was read is well formed, and every well-formed tree is read: its text is
scanned without errors and gives the tree again.
-/

namespace Cmm

/-! ## Trees of programs -/

theorem Name.isName_toNode {id : Name} (h : (Lexeme.name id.text).Scannable) : id.toNode.IsName :=
  .name (scannable_name_iff.1 h)

theorem Loc.isLocation_toNode {l : Loc} (h : ∀ x ∈ l.leaves, x.Scannable) :
    l.toNode.IsLocation := by
  induction l with
  | name id => exact .name (Name.isName_toNode (h _ (by simp [leaves])))
  | field l id p ih =>
      simp only [leaves, List.forall_mem_append, List.forall_mem_singleton] at h
      exact .dot (ih h.1) (Name.isName_toNode h.2)

mutual

theorem Expr.isExpression_toNode : ∀ e : Expr, (∀ x ∈ e.leaves, x.Scannable) →
    e.toNode.IsExpression
  | .number value p, h => by
    obtain ⟨hlow, hhigh⟩ := h (.number value) (by simp [leaves])
    exact .number hlow hhigh
  | .string raw p, h => .string (scannable_string_iff.1 (h _ (by simp [leaves])))
  | .truth value p, _ => .truth value p
  | .loc l, h => .location (Loc.isLocation_toNode h)
  | .assign lhs rhs p, h => by
    simp only [leaves, List.forall_mem_append] at h
    exact .assign (Loc.isLocation_toNode h.1) (isExpression_toNode rhs h.2)
  | .call callee args p, h => by
    simp only [leaves, List.forall_mem_cons] at h
    exact .call (Name.isName_toNode h.1) (isExpression_toNodes args h.2)
  | .unary op operand p, h => .unary op (isExpression_toNode operand h)
  | .binary op left right p, h => by
    simp only [leaves, List.forall_mem_append] at h
    exact .binary op (isExpression_toNode left h.1) (isExpression_toNode right h.2)

theorem Expr.isExpression_toNodes : ∀ es : List Expr, (∀ x ∈ allLeaves es, x.Scannable) →
    ∀ n ∈ toNodes es, n.IsExpression
  | [], _ => List.forall_mem_nil _
  | e :: rest, h => by
    simp only [allLeaves, List.forall_mem_append] at h
    exact List.forall_mem_cons.2 ⟨isExpression_toNode e h.1, isExpression_toNodes rest h.2⟩

end

theorem VariableDecl.isVariable_toNode {v : VariableDecl}
    (h : ∀ id ∈ v.names, (Lexeme.name id.text).Scannable) : v.toNode.IsVariable := by
  obtain ⟨type, id, p⟩ := v
  simp only [names, List.forall_mem_append, List.forall_mem_singleton] at h
  cases type with
  | primitive type => exact .primitive type (Name.isName_toNode h.2)
  | struct name =>
      exact .struct (Name.isName_toNode (h.1 name (by simp [VariableType.names])))
        (Name.isName_toNode h.2)

theorem isVariable_map_toNode {vs : List VariableDecl}
    (h : ∀ id ∈ vs.flatMap VariableDecl.names, (Lexeme.name id.text).Scannable) :
    ∀ n ∈ vs.map VariableDecl.toNode, n.IsVariable := by
  rw [List.forall_mem_map]
  intro v hv
  exact VariableDecl.isVariable_toNode fun id hid => h id (List.mem_flatMap_of_mem hv hid)

theorem VariableDecls.isVariables_toNode {vs : VariableDecls}
    (h : ∀ id ∈ vs.items.flatMap VariableDecl.names, (Lexeme.name id.text).Scannable) :
    vs.toNode.IsVariables :=
  .list (isVariable_map_toNode h)

theorem Call.isName_and_isExpression {c : Call} (h : ∀ x ∈ c.toExpr.leaves, x.Scannable) :
    c.callee.toNode.IsName ∧ ∀ n ∈ Expr.toNodes c.args, n.IsExpression := by
  have hleaves := List.forall_mem_cons.1 h
  exact ⟨Name.isName_toNode hleaves.1, Expr.isExpression_toNodes c.args hleaves.2⟩

theorem Assignment.isLocation_and_isExpression {a : Assignment}
    (h : ∀ x ∈ a.toExpr.leaves, x.Scannable) :
    a.lhs.toNode.IsLocation ∧ a.rhs.toNode.IsExpression := by
  have hleaves := List.forall_mem_append.1 h
  exact ⟨Loc.isLocation_toNode hleaves.1, a.rhs.isExpression_toNode hleaves.2⟩

theorem Block.scannable_sites {depth : Nat} {decls : VariableDecls} {stmts : List Stmt}
    {p : Position} (h : ∀ x ∈ (Block.mk decls stmts p).sites depth, x.2.Scannable) :
    decls.toNode.IsVariables ∧ ∀ x ∈ Stmt.allSites (depth + 1) stmts, x.2.Scannable := by
  simp only [sites, List.cons_append, List.forall_mem_cons, List.forall_mem_append,
    List.forall_mem_map] at h
  exact ⟨VariableDecls.isVariables_toNode h.2.1, h.2.2⟩

mutual

theorem Stmt.isStatement_toNode (depth : Nat) : ∀ s : Stmt,
    (∀ x ∈ s.sites depth, x.2.Scannable) → s.toNode.IsStatement
  | .assign a p, h =>
    have ha := Assignment.isLocation_and_isExpression (List.forall_mem_singleton.1 h)
    .assignment ha.1 ha.2
  | .increment loc p, h => .increment (Loc.isLocation_toNode (List.forall_mem_singleton.1 h))
  | .decrement loc p, h => .decrement (Loc.isLocation_toNode (List.forall_mem_singleton.1 h))
  | .read loc p, h => .read (Loc.isLocation_toNode (List.forall_mem_singleton.1 h))
  | .write exp p, h => .write (exp.isExpression_toNode (List.forall_mem_singleton.1 h))
  | .ifThen condition (.mk decls stmts q) p, h => by
    simp only [sites, List.forall_mem_cons] at h
    obtain ⟨hdecls, hstmts⟩ := Block.scannable_sites h.2
    exact .ifThen (condition.isExpression_toNode h.1) hdecls
      (isStatement_toNodes (depth + 1) stmts hstmts)
  | .ifElse condition (.mk decls stmts q) (.mk decls' stmts' q') p, h => by
    simp only [sites, List.forall_mem_cons, List.forall_mem_append] at h
    obtain ⟨hcondition, hthen, helse⟩ := h
    obtain ⟨hdecls, hstmts⟩ := Block.scannable_sites hthen
    obtain ⟨hdecls', hstmts'⟩ := Block.scannable_sites helse
    exact .ifElse (condition.isExpression_toNode hcondition) hdecls
      (isStatement_toNodes (depth + 1) stmts hstmts) hdecls'
      (isStatement_toNodes (depth + 1) stmts' hstmts')
  | .whileLoop condition (.mk decls stmts q) p, h => by
    simp only [sites, List.forall_mem_cons] at h
    obtain ⟨hdecls, hstmts⟩ := Block.scannable_sites h.2
    exact .whileLoop (condition.isExpression_toNode h.1) hdecls
      (isStatement_toNodes (depth + 1) stmts hstmts)
  | .repeatLoop condition (.mk decls stmts q) p, h => by
    simp only [sites, List.forall_mem_cons] at h
    obtain ⟨hdecls, hstmts⟩ := Block.scannable_sites h.2
    exact .repeatLoop (condition.isExpression_toNode h.1) hdecls
      (isStatement_toNodes (depth + 1) stmts hstmts)
  | .call c p, h =>
    have hc := Call.isName_and_isExpression (List.forall_mem_singleton.1 h)
    .callStatement hc.1 hc.2
  | .returnValue none p, _ => .returnNothing p
  | .returnValue (some value) p, h =>
    .returnValue (value.isExpression_toNode (List.forall_mem_singleton.1 h))

theorem Stmt.isStatement_toNodes (depth : Nat) : ∀ ss : List Stmt,
    (∀ x ∈ allSites depth ss, x.2.Scannable) → ∀ n ∈ toNodes ss, n.IsStatement
  | [], _ => List.forall_mem_nil _
  | s :: rest, h => by
    simp only [allSites, List.forall_mem_append] at h
    exact List.forall_mem_cons.2
      ⟨isStatement_toNode depth s h.1, isStatement_toNodes depth rest h.2⟩

end

theorem Decl.isDeclaration_toNode {d : Decl} (h : ∀ x ∈ d.sites, x.2.Scannable) :
    d.toNode.IsDeclaration := by
  simp only [sites, List.forall_mem_append, List.forall_mem_map] at h
  obtain ⟨hnames, hblock⟩ := h
  cases d with
  | variableDecl v => exact .variable (VariableDecl.isVariable_toNode hnames)
  | functionDecl f =>
      obtain ⟨type, id, ⟨formals, q⟩, ⟨⟨decls, stmts, r⟩, s⟩, p⟩ := f
      simp only [names, List.forall_mem_cons, List.forall_mem_map] at hnames
      obtain ⟨hdecls, hstmts⟩ := Block.scannable_sites hblock
      refine .function type (Name.isName_toNode hnames.1) ?_ hdecls
        (Stmt.isStatement_toNodes 1 stmts hstmts)
      rw [List.forall_mem_map]
      exact fun f hf => .formal f.type (Name.isName_toNode (hnames.2 f hf))
  | structDecl s =>
      simp only [names, List.forall_mem_cons] at hnames
      exact .struct (Name.isName_toNode hnames.1) (List.cons_ne_nil _ _) (isVariable_map_toNode hnames.2)

theorem Program.isProgram_toNode {p : Program} (h : ∀ x ∈ p.sites, x.2.Scannable) :
    p.toNode.IsProgram := by
  refine .program (List.forall_mem_map.2 fun d hd => ?_)
  exact Decl.isDeclaration_toNode fun x hx => h x (List.mem_flatMap_of_mem hd hx)

/-! ## Programs of trees -/

theorem Expr.allLeaves_eq_flatMap (es : List Expr) : allLeaves es = es.flatMap leaves := by
  induction es with
  | nil => rfl
  | cons e rest ih => rw [allLeaves, ih, List.flatMap_cons]

theorem Stmt.allSites_eq_flatMap (depth : Nat) (ss : List Stmt) :
    allSites depth ss = ss.flatMap (sites depth) := by
  induction ss with
  | nil => rfl
  | cons s rest ih => rw [allSites, ih, List.flatMap_cons]

namespace Node

theorem exists_map_unplaced {α : Type} {f : α → Node} {Q : α → Prop} {ns : List Node}
    (h : ∀ n ∈ ns, ∃ a, (f a).unplaced = n.unplaced ∧ Q a) :
    ∃ as : List α, allUnplaced (as.map f) = allUnplaced ns ∧ ∀ a ∈ as, Q a := by
  induction ns with
  | nil => exact ⟨[], rfl, List.forall_mem_nil _⟩
  | cons n rest ih =>
      rw [List.forall_mem_cons] at h
      obtain ⟨⟨a, ha, hQ⟩, hrest⟩ := h
      obtain ⟨as, has, hall⟩ := ih hrest
      refine ⟨a :: as, ?_, List.forall_mem_cons.2 ⟨hQ, hall⟩⟩
      rw [List.map_cons, allUnplaced, allUnplaced, ha, has]

variable {n : Node}

theorem IsName.exists_name (h : n.IsName) :
    ∃ id : Name, id.toNode = n ∧ (Lexeme.name id.text).Scannable := by
  cases h with
  | @name text p h => exact ⟨⟨text, p⟩, rfl, scannable_name_iff.2 h⟩

theorem IsLocation.exists_loc (h : n.IsLocation) :
    ∃ l : Loc, l.toNode = n ∧ ∀ x ∈ l.leaves, x.Scannable := by
  induction h with
  | name h =>
      obtain ⟨id, rfl, hscan⟩ := h.exists_name
      exact ⟨.name id, rfl, List.forall_mem_singleton.2 hscan⟩
  | @dot loc id p _ hid ih =>
      obtain ⟨l, rfl, hl⟩ := ih
      obtain ⟨id, rfl, hscan⟩ := hid.exists_name
      refine ⟨.field l id p, rfl, ?_⟩
      rw [Loc.leaves, List.forall_mem_append, List.forall_mem_singleton]
      exact ⟨hl, hscan⟩

theorem exists_arguments {args : List Node}
    (h : ∀ n ∈ args, ∃ e : Expr, e.toNode.unplaced = n.unplaced ∧ ∀ x ∈ e.leaves, x.Scannable) :
    ∃ es, allUnplaced (Expr.toNodes es) = allUnplaced args ∧
      ∀ x ∈ Expr.allLeaves es, x.Scannable := by
  obtain ⟨es, hes, hleaves⟩ := exists_map_unplaced h
  refine ⟨es, by rw [Expr.toNodes_eq_map, hes], ?_⟩
  rw [Expr.allLeaves_eq_flatMap, List.forall_mem_flatMap]
  exact hleaves

theorem IsExpression.exists_expr (h : n.IsExpression) :
    ∃ e : Expr, e.toNode.unplaced = n.unplaced ∧ ∀ x ∈ e.leaves, x.Scannable := by
  induction h with
  | @number value p hlow hhigh =>
      exact ⟨.number value p, rfl, List.forall_mem_singleton.2 ⟨hlow, hhigh⟩⟩
  | @string raw p h =>
      exact ⟨.string raw p, rfl, List.forall_mem_singleton.2 (scannable_string_iff.2 h)⟩
  | truth value p => exact ⟨.truth value p, rfl, List.forall_mem_nil _⟩
  | location h =>
      obtain ⟨l, rfl, hl⟩ := h.exists_loc
      exact ⟨.loc l, rfl, hl⟩
  | @assign lhs exp p hlhs _ ih =>
      obtain ⟨l, rfl, hl⟩ := hlhs.exists_loc
      obtain ⟨e, he, hleaves⟩ := ih
      refine ⟨.assign l e p, ?_, List.forall_mem_append.2 ⟨hl, hleaves⟩⟩
      rw [Expr.toNode, unplaced, unplaced, he]
  | @call id args p q hid _ ih =>
      obtain ⟨id, rfl, hscan⟩ := hid.exists_name
      obtain ⟨es, hes, hleaves⟩ := exists_arguments ih
      refine ⟨.call id es q, ?_, List.forall_mem_cons.2 ⟨hscan, hleaves⟩⟩
      rw [Expr.toNode, unplaced, unplaced, unplaced, unplaced, hes]
  | @unary operand p op _ ih =>
      obtain ⟨e, he, hleaves⟩ := ih
      refine ⟨.unary op e p, ?_, hleaves⟩
      rw [Expr.toNode, unplaced, unplaced, he]
  | @binary left right p op _ _ ihleft ihright =>
      obtain ⟨e, he, hleaves⟩ := ihleft
      obtain ⟨e', he', hleaves'⟩ := ihright
      refine ⟨.binary op e e' p, ?_, List.forall_mem_append.2 ⟨hleaves, hleaves'⟩⟩
      rw [Expr.toNode, unplaced, unplaced, he, he']

theorem IsVariable.exists_variableDecl (h : n.IsVariable) :
    ∃ v : VariableDecl, v.toNode.unplaced = n.unplaced ∧
      ∀ id ∈ v.names, (Lexeme.name id.text).Scannable := by
  cases h with
  | @primitive id p q type hid =>
      obtain ⟨id, rfl, hscan⟩ := hid.exists_name
      exact ⟨⟨.primitive type, id, p⟩, rfl, List.forall_mem_singleton.2 hscan⟩
  | @struct name id p q hname hid =>
      obtain ⟨name, rfl, hscan'⟩ := hname.exists_name
      obtain ⟨id, rfl, hscan⟩ := hid.exists_name
      refine ⟨⟨.struct name, id, p⟩, rfl, List.forall_mem_cons.2 ⟨hscan', ?_⟩⟩
      exact List.forall_mem_singleton.2 hscan

theorem exists_variableDecls {ns : List Node} (h : ∀ n ∈ ns, n.IsVariable) :
    ∃ vs : List VariableDecl, allUnplaced (vs.map VariableDecl.toNode) = allUnplaced ns ∧
      ∀ id ∈ vs.flatMap VariableDecl.names, (Lexeme.name id.text).Scannable := by
  obtain ⟨vs, hvs, hnames⟩ := exists_map_unplaced fun n hn => (h n hn).exists_variableDecl
  exact ⟨vs, hvs, List.forall_mem_flatMap.2 hnames⟩

theorem exists_block {decls : Node} {stmts : List Node} (q : Position) (hdecls : decls.IsVariables)
    (hstmts : ∀ n ∈ stmts, ∃ s : Stmt, s.toNode.unplaced = n.unplaced ∧
      ∀ depth, ∀ x ∈ s.sites depth, x.2.Scannable) :
    ∃ b : Block, b.declsNode.unplaced = decls.unplaced ∧
      b.stmtsNode.unplaced = (Node.list .statements stmts q).unplaced ∧
      ∀ depth, ∀ x ∈ b.sites depth, x.2.Scannable := by
  cases hdecls with
  | @list items p hitems =>
      obtain ⟨vs, hvs, hnames⟩ := exists_variableDecls hitems
      obtain ⟨ss, hss, hsites⟩ := exists_map_unplaced hstmts
      refine ⟨.mk ⟨vs, p⟩ ss q, ?_, ?_, fun depth => ?_⟩
      · rw [Block.declsNode, VariableDecls.toNode, unplaced, unplaced, hvs]
      · rw [Block.stmtsNode, unplaced, unplaced, Stmt.toNodes_eq_map, hss]
      · simp only [Block.sites, List.cons_append, List.forall_mem_cons, List.forall_mem_append,
          List.forall_mem_map]
        refine ⟨trivial, hnames, ?_⟩
        rw [Stmt.allSites_eq_flatMap, List.forall_mem_flatMap]
        exact fun s hs => hsites s hs (depth + 1)

theorem IsStatement.exists_stmt (h : n.IsStatement) :
    ∃ s : Stmt, s.toNode.unplaced = n.unplaced ∧ ∀ depth, ∀ x ∈ s.sites depth, x.2.Scannable := by
  induction h with
  | @assignment lhs exp p q hlhs hexp =>
      obtain ⟨l, rfl, hl⟩ := hlhs.exists_loc
      obtain ⟨e, he, hleaves⟩ := hexp.exists_expr
      refine ⟨.assign ⟨l, e, q⟩ p, ?_, fun _ => List.forall_mem_singleton.2 ?_⟩
      · rw [Stmt.toNode, Assignment.toNode, Assignment.toExpr, Expr.toNode, unplaced, unplaced,
          unplaced, unplaced, he]
      · exact List.forall_mem_append.2 ⟨hl, hleaves⟩
  | @increment loc p h =>
      obtain ⟨l, rfl, hl⟩ := h.exists_loc
      exact ⟨.increment l p, rfl, fun _ => List.forall_mem_singleton.2 hl⟩
  | @decrement loc p h =>
      obtain ⟨l, rfl, hl⟩ := h.exists_loc
      exact ⟨.decrement l p, rfl, fun _ => List.forall_mem_singleton.2 hl⟩
  | @read loc p h =>
      obtain ⟨l, rfl, hl⟩ := h.exists_loc
      exact ⟨.read l p, rfl, fun _ => List.forall_mem_singleton.2 hl⟩
  | @write exp p h =>
      obtain ⟨e, he, hleaves⟩ := h.exists_expr
      refine ⟨.write e p, ?_, fun _ => List.forall_mem_singleton.2 hleaves⟩
      rw [Stmt.toNode, unplaced, unplaced, he]
  | @ifThen exp decls stmts p q hexp hdecls _ ih =>
      obtain ⟨e, he, hleaves⟩ := hexp.exists_expr
      obtain ⟨b, hb, hb', hsites⟩ := exists_block q hdecls ih
      refine ⟨.ifThen e b p, ?_, fun depth => List.forall_mem_cons.2 ⟨hleaves, hsites depth⟩⟩
      rw [Stmt.toNode, unplaced, unplaced, he, hb, hb']
  | @ifElse exp decls decls' stmts stmts' p q q' hexp hdecls _ hdecls' _ ih ih' =>
      obtain ⟨e, he, hleaves⟩ := hexp.exists_expr
      obtain ⟨b, hb, hb', hsites⟩ := exists_block q hdecls ih
      obtain ⟨c, hc, hc', hsites'⟩ := exists_block q' hdecls' ih'
      refine ⟨.ifElse e b c p, ?_, fun depth => List.forall_mem_cons.2 ⟨hleaves, ?_⟩⟩
      · rw [Stmt.toNode, unplaced, unplaced, he, hb, hb', hc, hc']
      · exact List.forall_mem_append.2 ⟨hsites depth, hsites' depth⟩
  | @whileLoop exp decls stmts p q hexp hdecls _ ih =>
      obtain ⟨e, he, hleaves⟩ := hexp.exists_expr
      obtain ⟨b, hb, hb', hsites⟩ := exists_block q hdecls ih
      refine ⟨.whileLoop e b p, ?_, fun depth => List.forall_mem_cons.2 ⟨hleaves, hsites depth⟩⟩
      rw [Stmt.toNode, unplaced, unplaced, he, hb, hb']
  | @repeatLoop exp decls stmts p q hexp hdecls _ ih =>
      obtain ⟨e, he, hleaves⟩ := hexp.exists_expr
      obtain ⟨b, hb, hb', hsites⟩ := exists_block q hdecls ih
      refine ⟨.repeatLoop e b p, ?_, fun depth => List.forall_mem_cons.2 ⟨hleaves, hsites depth⟩⟩
      rw [Stmt.toNode, unplaced, unplaced, he, hb, hb']
  | @callStatement id args p q r hid hargs =>
      obtain ⟨id, rfl, hscan⟩ := hid.exists_name
      obtain ⟨es, hes, hleaves⟩ := exists_arguments fun n hn => (hargs n hn).exists_expr
      refine ⟨.call ⟨id, es, r⟩ p, ?_, fun _ => List.forall_mem_singleton.2 ?_⟩
      · rw [Stmt.toNode, Call.toNode, Call.toExpr, Expr.toNode, unplaced, unplaced, unplaced,
          unplaced, unplaced, unplaced, hes]
      · exact List.forall_mem_cons.2 ⟨hscan, hleaves⟩
  | returnNothing p => exact ⟨.returnValue none p, rfl, fun _ => List.forall_mem_nil _⟩
  | @returnValue exp p h =>
      obtain ⟨e, he, hleaves⟩ := h.exists_expr
      refine ⟨.returnValue (some e) p, ?_, fun _ => List.forall_mem_singleton.2 hleaves⟩
      rw [Stmt.toNode, unplaced, unplaced, he]

theorem IsFormal.exists_formal (h : n.IsFormal) :
    ∃ f : Formal, f.toNode.unplaced = n.unplaced ∧ (Lexeme.name f.id.text).Scannable := by
  cases h with
  | @formal id p q type hid =>
      obtain ⟨id, rfl, hscan⟩ := hid.exists_name
      exact ⟨⟨type, id, p⟩, rfl, hscan⟩

theorem IsDeclaration.exists_decl (h : n.IsDeclaration) :
    ∃ d : Decl, d.toNode.unplaced = n.unplaced ∧ ∀ x ∈ d.sites, x.2.Scannable := by
  simp only [Decl.sites, List.forall_mem_append, List.forall_mem_map]
  cases h with
  | «variable» h =>
      obtain ⟨v, hv, hnames⟩ := h.exists_variableDecl
      exact ⟨.variableDecl v, hv, hnames, List.forall_mem_nil _⟩
  | @function id decls formals stmts p q r s t type hid hformals hdecls hstmts =>
      obtain ⟨id, rfl, hscan⟩ := hid.exists_name
      obtain ⟨fs, hfs, hnames⟩ := exists_map_unplaced fun n hn => (hformals n hn).exists_formal
      obtain ⟨b, hb, hb', hsites⟩ :=
        exists_block t hdecls fun n hn => (hstmts n hn).exists_stmt
      refine ⟨.functionDecl ⟨type, id, ⟨fs, r⟩, ⟨b, s⟩, p⟩, ?_, ?_, hsites 0⟩
      · simp only [Decl.toNode, FunctionDecl.toNode, Formals.toNode, Body.toNode, unplaced, hfs, hb,
          hb']
      · rw [Decl.names, List.forall_mem_cons, List.forall_mem_map]
        exact ⟨hscan, hnames⟩
  | @struct id fields p q hid hne hfields =>
      obtain ⟨id, rfl, hscan⟩ := hid.exists_name
      obtain ⟨vs, hvs, hnames⟩ := exists_variableDecls hfields
      cases vs with
      | nil =>
          rw [List.map_nil, allUnplaced, allUnplaced_eq_map, eq_comm, List.map_eq_nil_iff] at hvs
          exact absurd hvs hne
      | cons v vs =>
          refine ⟨.structDecl ⟨id, v, vs, q, p⟩, ?_, List.forall_mem_cons.2 ⟨hscan, hnames⟩,
            List.forall_mem_nil _⟩
          simp only [Decl.toNode, StructDecl.toNode, StructDecl.fields, VariableDecls.toNode,
            unplaced, hvs]

/-- A well-formed tree is that of a program, positions left aside. -/
theorem IsProgram.exists_program (h : n.IsProgram) :
    ∃ p : Program, p.toNode.unplaced = n.unplaced ∧ ∀ x ∈ p.sites, x.2.Scannable := by
  cases h with
  | @program decls p q h =>
      obtain ⟨ds, hds, hsites⟩ := exists_map_unplaced fun n hn => (h n hn).exists_decl
      refine ⟨⟨ds, p⟩, ?_, List.forall_mem_flatMap.2 hsites⟩
      rw [Program.toNode, unplaced, unplaced, unplaced, unplaced, hds]

end Node

/-! ## Room -/

theorem Site.exists_room (depth : Nat) (site : Site) : ∃ bound : Nat, ∀ limits : Limits,
    bound ≤ limits.depth → bound ≤ limits.height → site.HasRoom limits depth := by
  cases site with
  | name id => exact ⟨0, fun _ _ _ => trivial⟩
  | expression e =>
      refine ⟨depth + (1 + e.printed.nesting) + e.height, fun limits hdepth hheight => ?_⟩
      refine ⟨by omega, fun _ => by omega⟩
  | block => exact ⟨depth, fun _ hdepth _ => hdepth⟩

theorem exists_room (sites : List (Nat × Site)) : ∃ bound : Nat, ∀ limits : Limits,
    bound ≤ limits.depth → bound ≤ limits.height → AllHaveRoom limits sites := by
  induction sites with
  | nil => exact ⟨0, fun _ _ _ => allSites_nil⟩
  | cons x rest ih =>
      obtain ⟨bound, hbound⟩ := ih
      obtain ⟨bound', hbound'⟩ := x.2.exists_room x.1
      refine ⟨max bound bound', fun limits hdepth hheight => allSites_cons.2 ⟨?_, ?_⟩⟩
      · exact hbound' limits (by omega) (by omega)
      · exact hbound limits (by omega) (by omega)

/-! ## The image of reading -/

/-- The tree of every program that is read is well formed.  A well-formed tree, whatever its
positions, has a text, as long as every indentation by one of its blocks is an index; the text is
scanned without errors and warnings, and within all limits from some bound on it is read as the
same tree. -/
theorem program_image :
    (∀ (limits : Limits) (source : String) (p : Program),
      Program.ofText limits source = .ok p → p.toNode.IsProgram) ∧
    ∀ n : Node, n.IsProgram → ∀ tab indent : Int,
      (∀ k : Nat, k ≤ n.nesting → fitsIndex (indent + k * tab) = true) →
      ∃ (text : String) (bound : Nat), n.print tab indent = ⟨text, none⟩ ∧
        (Scan.ofText text.toList).errors = [] ∧ (Scan.ofText text.toList).warnings = [] ∧
        ∀ limits : Limits, bound ≤ limits.depth → bound ≤ limits.height →
          ∃ q, Program.ofText limits text = .ok q ∧ q.toNode.sameAs n = true := by
  refine ⟨fun limits source p hp => ?_, fun n hn tab indent hfits => ?_⟩
  · obtain ⟨ls, hsites, hscannable⟩ := Program.exists_builtFrom hp
    exact Program.isProgram_toNode fun x hx => (hsites x hx).scannable hscannable
  · obtain ⟨p, hp, hscannable⟩ := hn.exists_program
    have hspells := spells_program tab indent p hscannable
    have hitems : p.toNode.items tab indent = n.items tab indent := by
      rw [← Node.items_unplaced, hp, Node.items_unplaced]
    rw [hitems] at hspells
    obtain ⟨bound, hroom⟩ := exists_room p.sites
    have hprint : n.print tab indent = _ :=
      hspells.write ((n.indentedBy_items tab indent).fits hfits)
    have hspelled := hspells.spelled
    generalize htext : String.ofList (Layout.chars (n.items tab indent)) = text at hprint
    rw [← String.toList_ofList (l := Layout.chars _), htext] at hspelled
    obtain ⟨herrors, hwarnings, -⟩ := scan_of_spelled hspelled
    refine ⟨text, bound, hprint, herrors, hwarnings, fun limits hdepth hheight => ?_⟩
    obtain ⟨q, hq, hsame⟩ := Program.exists_ofText hspelled (hroom limits hdepth hheight)
    refine ⟨q, hq, Node.sameAs_of_unplaced_eq _ _ ?_⟩
    rw [Node.unplaced_eq_of_sameAs _ _ hsame, hp]

private def handBuilt : Node :=
  .program (.list .declarations
    [.structDecl (.name "S" ⟨9, 9⟩) (.list .declarations
        [.variableDecl (.structType (.name "S" ⟨0, 0⟩) ⟨-1, 3⟩) (.name "s" ⟨9, 9⟩) 0 ⟨9, 9⟩] ⟨9, 9⟩)
        ⟨9, 9⟩,
      .functionDecl (.primitive .void ⟨9, 9⟩) (.name "f" ⟨9, 9⟩) (.list .formals [] ⟨9, 9⟩)
        (.functionBody (.list .declarations [] ⟨9, 9⟩) (.list .statements
          [.write (.binary (some .equals) (.string "\"\\n\"" ⟨9, 9⟩) (.unary (some .minus)
              (.assign (.dot (.name "f" ⟨9, 9⟩) (.name "s" ⟨9, 9⟩) ⟨9, 9⟩) (.number 7 ⟨9, 9⟩) ⟨9, 9⟩)
              ⟨9, 9⟩) ⟨9, 9⟩) ⟨9, 9⟩] ⟨9, 9⟩) ⟨9, 9⟩) ⟨9, 9⟩] ⟨9, 9⟩) ⟨9, 9⟩

private def handBuiltText : String :=
  "struct S \x7b\n    struct S s;\n\x7d;\nvoid f() \x7b\n    cout << (\"\\n\" == (-(f.s = 7)));\n\x7d\n\n"

theorem program_image_of_hand_built : handBuilt.IsProgram ∧
    (∀ k : Nat, k ≤ handBuilt.nesting → fitsIndex (0 + k * 4) = true) ∧
    handBuilt.print 4 0 = ⟨handBuiltText, none⟩ ∧
    ∃ (limits : Limits) (q : Program), Program.ofText limits handBuiltText = .ok q ∧
      q.toNode.sameAs handBuilt = true ∧ q.toNode.IsProgram := by
  have hstruct : ∀ p, (Node.name "S" p).IsName := fun _ =>
    .name (scannable_name_iff.1 ⟨⟨'S', [], rfl, by decide, nofun⟩, by decide⟩)
  have hfield : ∀ p, (Node.name "s" p).IsName := fun _ =>
    .name (scannable_name_iff.1 ⟨⟨'s', [], rfl, by decide, nofun⟩, by decide⟩)
  have hfunction : ∀ p, (Node.name "f" p).IsName := fun _ =>
    .name (scannable_name_iff.1 ⟨⟨'f', [], rfl, by decide, nofun⟩, by decide⟩)
  have hstring : Spelling "\"\\n\"".toList (.string "\"\\n\"") :=
    scannable_string_iff.1 ⟨['\\', 'n', '"'], rfl, by decide⟩
  have hprogram : handBuilt.IsProgram := by
    refine .program (List.forall_mem_cons.2 ⟨?_, List.forall_mem_singleton.2 ?_⟩)
    · exact .struct (hstruct _) nofun
        (List.forall_mem_singleton.2 (.struct (hstruct _) (hfield _)))
    · exact .function .void (hfunction _) nofun (.list nofun)
        (List.forall_mem_singleton.2 (.write (.binary .equals (.string hstring) (.unary .minus
          (.assign (.dot (.name (hfunction _)) (hfield _)) (.number (by decide) (by decide)))))))
  have hfits : ∀ k : Nat, k ≤ handBuilt.nesting → fitsIndex (0 + k * 4) = true := by
    intro k hk
    have hk : k ≤ 1 := hk
    obtain rfl | rfl : k = 0 ∨ k = 1 := by omega
    · decide
    · decide
  obtain ⟨text, bound, hprint, -, -, hread⟩ := program_image.2 handBuilt hprogram 4 0 hfits
  have htext : handBuilt.print 4 0 = ⟨handBuiltText, none⟩ := by decide
  obtain rfl : _ = text := congrArg Layout.Printed.text (htext.symm.trans hprint)
  obtain ⟨q, hq, hsame⟩ := hread ⟨bound, bound⟩ (Int.le_refl _) (Int.le_refl _)
  exact ⟨hprogram, hfits, htext, _, q, hq, hsame, program_image.1 _ _ q hq⟩

end Cmm

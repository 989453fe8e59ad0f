import Cmm.Proofs.Program.Written

/-!
# Programs as they are printed

The text of a program spells its parts in order, if its names, numbers and strings can be scanned.
-/

namespace Cmm

open Layout (Spells)

def Site.Scannable : Site → Prop
  | .name id => (Lexeme.name id.text).Scannable
  | .expression e => ∀ x ∈ e.leaves, x.Scannable
  | .block => True

section Pieces

variable {items : List Layout.Item} {ls : List Lexeme} {next : Char → Prop}

theorem spelled_lineEnd : Spelled ";\n".toList [.ofSymbol .semicolon] fun _ => True :=
  (spelled_punctuation .semicolon (by decide)).before spelled_lineFeed

theorem spells_lineEnd : Spells [.text ";\n"] [.ofSymbol .semicolon] fun _ => True :=
  .text spelled_lineEnd

theorem spells_end : Spells [.text "\n"] [] fun _ => True := .text spelled_lineFeed

theorem spells_open : Spells [.text "\x7b\n"] [.ofSymbol .leftCurly] fun _ => True :=
  .text ((spelled_punctuation .leftCurly (by decide)).before spelled_lineFeed)

theorem spells_line (h : Spells items ls EndsWord) :
    Spells (items ++ [.text ";\n"]) (ls ++ [.ofSymbol .semicolon]) fun _ => True :=
  h.beforeHead spells_lineEnd rfl (endsWord_of_mem (by decide))

theorem spells_indented (width : Int) (h : Spells items ls next) :
    Spells (.indent width :: items) ls next :=
  (Spells.indent width).before h

theorem spells_lineFeed (h : Spells items ls fun _ => True) :
    Spells (items ++ [.text "\n"]) ls fun _ => True := by
  simpa using h.before spells_end

theorem spells_conditional (indent : Int) (h : Spells items ls fun _ => True)
    {items' : List Layout.Item} {ls' : List Lexeme} (h' : Spells items' ls' fun _ => True) :
    Spells (.indent indent :: (items ++ (items' ++ [.text "\n"]))) (ls ++ ls') fun _ => True :=
  spells_indented indent (h.before (spells_lineFeed h'))

theorem spells_inBraces (indent : Int) (h : Spells items ls fun _ => True) :
    Spells (Node.inBraces indent items)
      (.ofSymbol .leftCurly :: (ls ++ [.ofSymbol .rightCurly])) fun _ => True := by
  have hclose : Spells [.text "\x7d"] [.ofSymbol .rightCurly] fun _ => True :=
    .text (spelled_punctuation .rightCurly (by decide))
  exact spells_open.before (h.before (spells_indented indent hclose))

theorem spells_space (h : Spells items ls EndsWord) {items' : List Layout.Item}
    {ls' : List Lexeme} (h' : Spells items' ls' next) :
    Spells (items ++ .text " " :: items') (ls ++ ls') next := by
  have hspace : Spells [.text " "] [] fun _ => True := .text spelled_blank
  exact h.beforeHead (hspace.before h') rfl endsWord_blank

end Pieces

theorem spells_header (word : Keyword) (e : Expr) (h : ∀ x ∈ e.leaves, x.Scannable) :
    Spells (Node.header word.spelling e.toNode) (e.conditionLexemes word) fun _ => True := by
  have hopen : Spells [.text (word.spelling ++ " (")] [.ofKeyword word, .ofSymbol .leftParen]
      fun _ => True := by
    refine .text ?_
    have hparen := spelled_punctuation .leftParen (by decide)
    rw [String.toList_append]
    exact (spelled_keyword word).beforeHead (spelled_blank.before hparen) (by simp)
      (by simpa using endsWord_blank)
  have hclose : Spells [.text ") "] [.ofSymbol .rightParen] fun _ => True :=
    .text ((spelled_punctuation .rightParen (by decide)).before spelled_blank)
  exact hopen.before ((spells_expression e h).beforeHead hclose rfl (endsWord_of_mem (by decide)))

/-! ## Variables -/

theorem spells_type (type : VariableType) (p : Position)
    (h : ∀ id ∈ type.names, (Lexeme.name id.text).Scannable) :
    Spells (type.toNode p).typeItems type.lexemes EndsWord := by
  cases type with
  | primitive type => exact .text (spelled_keyword type.keyword)
  | struct id =>
      have hword : Spells [.text "struct "] [.ofKeyword .struct] fun _ => True :=
        .text (spelled_keyword_blank .struct)
      exact hword.before (spells_name id (h id (by simp [VariableType.names])))

theorem spells_variableDecl (tab indent : Int) (v : VariableDecl)
    (h : ∀ id ∈ v.names, (Lexeme.name id.text).Scannable) :
    Spells (v.toNode.declaration tab indent) v.lexemes fun _ => True := by
  simp only [VariableDecl.names, List.forall_mem_append, List.forall_mem_singleton] at h
  have hline := spells_line (spells_space (spells_type v.type v.position h.1) (spells_name v.id h.2))
  have hdecl := spells_indented indent hline
  simpa [VariableDecl.toNode, Node.declaration, VariableDecl.lexemes] using hdecl

theorem spells_declarations (tab indent : Int) (vs : List VariableDecl)
    (h : ∀ id ∈ vs.flatMap VariableDecl.names, (Lexeme.name id.text).Scannable) :
    Spells (Node.declarations tab indent (vs.map VariableDecl.toNode))
      (vs.flatMap VariableDecl.lexemes) fun _ => True := by
  induction vs with
  | nil => exact .nil
  | cons v rest ih =>
      simp only [List.flatMap_cons, List.forall_mem_append] at h
      exact (spells_variableDecl tab indent v h.1).before (ih h.2)

/-! ## Statements -/

theorem Expr.isAbsent_toNode (e : Expr) : e.toNode.isAbsent = false := by
  cases e with
  | loc l => cases l <;> rfl
  | _ => rfl

mutual

theorem spells_statement (tab indent : Int) (depth : Nat) : ∀ s : Stmt,
    (∀ x ∈ s.sites depth, x.2.Scannable) →
      Spells (s.toNode.statement tab indent) s.lexemes fun _ => True
  | .assign a p, h => by
    simp only [Stmt.sites, List.forall_mem_singleton] at h
    have hline := spells_indented indent (spells_line (spells_expression a.toExpr h))
    simpa [Stmt.toNode, Assignment.toNode, Node.statement, Stmt.lexemes] using hline
  | .increment loc p, h => by
    simp only [Stmt.sites, List.forall_mem_singleton] at h
    have hsign : Spells [.text "++;\n"] [.ofSymbol .plusPlus, .ofSymbol .semicolon] fun _ => True :=
      .text ((spelled_punctuation .plusPlus (by decide)).before spelled_lineEnd)
    have hline := (spells_loc loc h).beforeHead hsign rfl (endsWord_of_mem (by decide))
    simpa [Stmt.toNode, Node.statement, Stmt.lexemes] using spells_indented indent hline
  | .decrement loc p, h => by
    simp only [Stmt.sites, List.forall_mem_singleton] at h
    have hsign : Spells [.text "--;\n"] [.ofSymbol .minusMinus, .ofSymbol .semicolon] fun _ => True :=
      .text ((spelled_punctuation .minusMinus (by decide)).before spelled_lineEnd)
    have hline := (spells_loc loc h).beforeHead hsign rfl (endsWord_of_mem (by decide))
    simpa [Stmt.toNode, Node.statement, Stmt.lexemes] using spells_indented indent hline
  | .read loc p, h => by
    simp only [Stmt.sites, List.forall_mem_singleton] at h
    have hword : Spells [.text "cin >> "] [.ofKeyword .cin, .ofSymbol .read] fun _ => True :=
      .text ((spelled_keyword_blank .cin).before (spelled_symbol_blank .read))
    have hline := hword.before (spells_line (spells_loc loc h))
    simpa [Stmt.toNode, Node.statement, Stmt.lexemes] using spells_indented indent hline
  | .write exp p, h => by
    simp only [Stmt.sites, List.forall_mem_singleton] at h
    have hword : Spells [.text "cout << "] [.ofKeyword .cout, .ofSymbol .write] fun _ => True :=
      .text ((spelled_keyword_blank .cout).before (spelled_symbol_blank .write))
    have hline := hword.before (spells_line (spells_expression exp h))
    simpa [Stmt.toNode, Node.statement, Stmt.lexemes] using spells_indented indent hline
  | .ifThen condition block p, h => by
    simp only [Stmt.sites, List.forall_mem_cons] at h
    have hheader : Spells (Node.header "if" condition.toNode) _ _ :=
      spells_header .ifWord condition h.1
    have hwhole := spells_conditional indent hheader (spells_block tab indent depth block h.2)
    simpa [Stmt.toNode, Node.statement, Stmt.lexemes] using hwhole
  | .ifElse condition thenBlock elseBlock p, h => by
    simp only [Stmt.sites, List.forall_mem_cons, List.forall_mem_append] at h
    obtain ⟨hcondition, hthen, helse⟩ := h
    have hword : Spells [.text " else "] [.ofKeyword .elseWord] fun _ => True :=
      .text (spelled_blank.before (spelled_keyword_blank .elseWord))
    have hblocks := (spells_block tab indent depth thenBlock hthen).before
      (hword.before (spells_block tab indent depth elseBlock helse))
    have hheader : Spells (Node.header "if" condition.toNode) _ _ :=
      spells_header .ifWord condition hcondition
    have hwhole := spells_conditional indent hheader hblocks
    simpa [Stmt.toNode, Node.statement, Stmt.lexemes] using hwhole
  | .whileLoop condition block p, h => by
    simp only [Stmt.sites, List.forall_mem_cons] at h
    have hheader : Spells (Node.header "while" condition.toNode) _ _ :=
      spells_header .whileWord condition h.1
    have hwhole := spells_conditional indent hheader (spells_block tab indent depth block h.2)
    simpa [Stmt.toNode, Node.statement, Stmt.lexemes] using hwhole
  | .repeatLoop condition block p, h => by
    simp only [Stmt.sites, List.forall_mem_cons] at h
    have hheader : Spells (Node.header "repeat" condition.toNode) _ _ :=
      spells_header .repeatWord condition h.1
    have hwhole := spells_conditional indent hheader (spells_block tab indent depth block h.2)
    simpa [Stmt.toNode, Node.statement, Stmt.lexemes] using hwhole
  | .call c p, h => by
    simp only [Stmt.sites, List.forall_mem_singleton] at h
    have hline := spells_indented indent (spells_line (spells_expression c.toExpr h))
    simpa [Stmt.toNode, Call.toNode, Node.statement, Stmt.lexemes] using hline
  | .returnValue none p, h => by
    have hline : Spells [.text "return;\n"] [.ofKeyword .returnWord, .ofSymbol .semicolon]
        fun _ => True :=
      .text ((spelled_keyword .returnWord).beforeHead spelled_lineEnd (by simp)
        (by simpa using endsWord_of_mem (by decide)))
    simpa [Stmt.toNode, Node.statement, Node.isAbsent, Stmt.lexemes] using
      spells_indented indent hline
  | .returnValue (some value) p, h => by
    simp only [Stmt.sites, List.forall_mem_singleton] at h
    have hword : Spells [.text "return "] [.ofKeyword .returnWord] fun _ => True :=
      .text (spelled_keyword_blank .returnWord)
    have hline := hword.before (spells_line (spells_expression value h))
    simpa [Stmt.toNode, Node.statement, value.isAbsent_toNode, Stmt.lexemes] using
      spells_indented indent hline

theorem spells_statements (tab indent : Int) (depth : Nat) : ∀ ss : List Stmt,
    (∀ x ∈ Stmt.allSites depth ss, x.2.Scannable) →
      Spells (Node.statements tab indent (Stmt.toNodes ss)) (Stmt.allLexemes ss) fun _ => True
  | [], _ => .nil
  | s :: rest, h => by
    simp only [Stmt.allSites, List.forall_mem_append] at h
    exact (spells_statement tab indent depth s h.1).before (spells_statements tab indent depth rest h.2)

theorem spells_block (tab indent : Int) (depth : Nat) : ∀ b : Block,
    (∀ x ∈ b.sites depth, x.2.Scannable) →
      Spells (Node.inBraces indent (b.declsNode.declarationList tab (indent + tab) ++
        b.stmtsNode.statementList tab (indent + tab))) b.lexemes fun _ => True
  | .mk decls stmts p, h => by
    simp only [Block.sites, List.cons_append, List.forall_mem_cons, List.forall_mem_append,
      List.forall_mem_map] at h
    obtain ⟨-, hnames, hstmts⟩ := h
    have hdecls := spells_declarations tab (indent + tab) decls.items hnames
    have hwhole := spells_inBraces indent
      (hdecls.before (spells_statements tab (indent + tab) (depth + 1) stmts hstmts))
    simpa [Block.declsNode, VariableDecls.toNode, Block.stmtsNode, Node.declarationList,
      Node.statementList, Block.lexemes] using hwhole

end

/-! ## Declarations -/

theorem spells_formal (f : Formal) (h : (Lexeme.name f.id.text).Scannable) :
    Spells f.toNode.formalItems f.lexemes EndsWord := by
  have htype : Spells [.text f.type.spelling] [.ofKeyword f.type.keyword] EndsWord :=
    .text (spelled_keyword f.type.keyword)
  simpa [Formal.toNode, Node.formalItems, Node.typeItems, Formal.lexemes] using
    spells_space htype (spells_name f.id h)

theorem spells_formalItems (fs : List Formal)
    (h : ∀ id ∈ fs.map Formal.id, (Lexeme.name id.text).Scannable) :
    Spells (Node.commaSeparated ((fs.map Formal.toNode).map Node.formalItems))
      (separated (fs.map Formal.lexemes)) EndsWord := by
  induction fs with
  | nil => exact .nil
  | cons f rest ih =>
      simp only [List.map_cons, List.forall_mem_cons] at h
      cases rest with
      | nil => exact spells_formal f h.1
      | cons f' rest =>
          have hcomma : Spells [.text ", "] [.ofSymbol .comma] fun _ => True :=
            .text (spelled_symbol_blank .comma)
          exact (spells_formal f h.1).beforeHead (hcomma.before (ih h.2)) rfl
            (endsWord_of_mem (by decide))

theorem spells_formals (fs : Formals)
    (h : ∀ id ∈ fs.items.map Formal.id, (Lexeme.name id.text).Scannable) :
    Spells fs.toNode.formalsItems fs.lexemes EndsWord :=
  spells_between (spells_formalItems fs.items h)

theorem spells_functionDecl (tab indent : Int) (f : FunctionDecl)
    (h : ∀ x ∈ (Decl.functionDecl f).sites, x.2.Scannable) :
    Spells (f.toNode.declaration tab indent) (Decl.functionDecl f).lexemes fun _ => True := by
  simp only [Decl.sites, Decl.names, List.forall_mem_append, List.forall_mem_map,
    List.forall_mem_cons] at h
  obtain ⟨⟨hid, hformals⟩, hbody⟩ := h
  have htype : Spells [.text f.type.spelling] [.ofKeyword f.type.keyword] EndsWord :=
    .text (spelled_keyword f.type.keyword)
  have hformals := spells_formals f.formals (List.forall_mem_map.2 hformals)
  have hbody := spells_lineFeed (spells_lineFeed (spells_block tab indent 0 f.body.block hbody))
  have hhead : Spells (f.id.toNode.expression false ++ f.formals.toNode.formalsItems) _ EndsWord :=
    (spells_name f.id hid).beforeHead hformals rfl (endsWord_of_mem (by decide))
  have hwhole := spells_indented indent (spells_space htype (spells_space hhead hbody))
  simpa [FunctionDecl.toNode, Node.declaration, Node.isAbsent, Node.typeItems, Name.toNode,
    Formals.toNode, Body.toNode, Node.functionBodyItems, Decl.lexemes] using hwhole

theorem spells_structDecl (tab indent : Int) (s : StructDecl)
    (h : ∀ x ∈ (Decl.structDecl s).sites, x.2.Scannable) :
    Spells (s.toNode.declaration tab indent) (Decl.structDecl s).lexemes fun _ => True := by
  simp only [Decl.sites, Decl.names, List.append_nil, List.forall_mem_map,
    List.forall_mem_cons] at h
  obtain ⟨hid, hfields⟩ := h
  have hword : Spells [.text "struct "] [.ofKeyword .struct] fun _ => True :=
    .text (spelled_keyword_blank .struct)
  have hfields := spells_inBraces indent
    (spells_declarations tab (indent + tab) (s.first :: s.more) hfields)
  have hwhole := spells_indented indent
    (hword.before (spells_space (spells_name s.id hid) (hfields.before spells_lineEnd)))
  simpa [StructDecl.toNode, StructDecl.fields, VariableDecls.toNode, Node.declaration,
    Node.declarationList, Decl.lexemes] using hwhole

theorem spells_declaration (tab indent : Int) (d : Decl) (h : ∀ x ∈ d.sites, x.2.Scannable) :
    Spells (d.toNode.declaration tab indent) d.lexemes fun _ => True := by
  cases d with
  | variableDecl v =>
      refine spells_variableDecl tab indent v fun id hid => ?_
      exact h (0, .name id) (List.mem_append_left _ (List.mem_map_of_mem hid))
  | functionDecl f => exact spells_functionDecl tab indent f h
  | structDecl s => exact spells_structDecl tab indent s h

theorem spells_program (tab indent : Int) (p : Program) (h : ∀ x ∈ p.sites, x.2.Scannable) :
    Spells (p.toNode.items tab indent) p.lexemes fun _ => True := by
  obtain ⟨decls, position⟩ := p
  change Spells (Node.declarations tab indent (decls.map Decl.toNode)) (decls.flatMap Decl.lexemes) _
  replace h : ∀ x ∈ decls.flatMap Decl.sites, x.2.Scannable := h
  induction decls with
  | nil => exact .nil
  | cons d rest ih =>
      simp only [List.flatMap_cons, List.forall_mem_append] at h
      exact (spells_declaration tab indent d h.1).before (ih h.2)

end Cmm

import Cmm.Proofs.Expr.OneLine
import Cmm.Proofs.Program.Image

/-!
# Programs line by line

The text of a program is a row of lines, each at a depth that is told by the blocks around it.  The
lines do not depend on the tab width and on the indentation of the whole; only what stands before
each line does.
-/

namespace Cmm

open Layout (Item Spells)

/-! ## Lines -/

/-- An empty line, or one that stands at a depth, up to its line feed. -/
inductive Line where
  | empty
  | filled (depth : Nat) (items : List Item)

def Line.items (tab indent : Int) : Line → List Item
  | .empty => [.text "\n"]
  | .filled depth items => .indent (indent + tab * depth) :: items

def openingLine (depth : Nat) (items : List Item) : Line :=
  .filled depth (items ++ [.text "\x7b\n"])

def closingLine (depth : Nat) (items : List Item) : Line := .filled depth (.text "\x7d" :: items)

def VariableDecl.line (depth : Nat) (v : VariableDecl) : Line :=
  .filled depth (v.toNode.declaration 0 0).tail

def conditionalLines (depth : Nat) (word : Keyword) (condition : Expr) (inner : List Line) :
    List Line :=
  openingLine depth (Node.header word.spelling condition.toNode) ::
    (inner ++ [closingLine depth [.text "\n"]])

mutual

def Stmt.lines (depth : Nat) : Stmt → List Line
  | .ifThen condition block _ => conditionalLines depth .ifWord condition (block.lines (depth + 1))
  | .ifElse condition thenBlock elseBlock _ =>
    conditionalLines depth .ifWord condition (thenBlock.lines (depth + 1) ++
      closingLine depth [.text " else ", .text "\x7b\n"] :: elseBlock.lines (depth + 1))
  | .whileLoop condition block _ =>
    conditionalLines depth .whileWord condition (block.lines (depth + 1))
  | .repeatLoop condition block _ =>
    conditionalLines depth .repeatWord condition (block.lines (depth + 1))
  | s => [.filled depth (s.toNode.statement 0 0).tail]

def Stmt.allLines (depth : Nat) : List Stmt → List Line
  | [] => []
  | s :: rest => s.lines depth ++ Stmt.allLines depth rest

def Block.lines (depth : Nat) : Block → List Line
  | .mk decls stmts _ => decls.items.map (VariableDecl.line depth) ++ Stmt.allLines depth stmts

end

def FunctionDecl.header (f : FunctionDecl) : List Item :=
  .text f.type.spelling :: .text " " :: (f.id.toNode.expression false ++
    (f.formals.toNode.formalsItems ++ [.text " "]))

def StructDecl.header (s : StructDecl) : List Item :=
  .text "struct " :: (s.id.toNode.expression false ++ [.text " "])

def Decl.lines : Decl → List Line
  | .variableDecl v => [v.line 0]
  | .functionDecl f =>
    openingLine 0 f.header ::
      (f.body.block.lines 1 ++ [closingLine 0 [.text "\n"], .empty])
  | .structDecl s =>
    openingLine 0 s.header ::
      ((s.first :: s.more).map (VariableDecl.line 1) ++ [closingLine 0 [.text ";\n"]])

def Program.lines (p : Program) : List Line := p.decls.flatMap Decl.lines

/-! ## Layouts -/

section

variable (tab indent : Int) (depth : Nat)

theorem indent_deeper :
    indent + tab * depth + tab = indent + tab * ((depth + 1 : Nat) : Int) := by
  rw [Int.natCast_add, Int.mul_add, Int.natCast_one, Int.mul_one, Int.add_assoc]

theorem VariableDecl.declaration_eq_line (v : VariableDecl) :
    v.toNode.declaration tab (indent + tab * depth) = (v.line depth).items tab indent :=
  rfl

theorem declarations_eq_lines (vs : List VariableDecl) :
    Node.declarations tab (indent + tab * depth) (vs.map VariableDecl.toNode) =
      (vs.map (VariableDecl.line depth)).flatMap (Line.items tab indent) := by
  induction vs with
  | nil => rfl
  | cons v rest ih =>
      rw [List.map_cons, Node.declarations, v.declaration_eq_line, ih, List.map_cons,
        List.flatMap_cons]

end

mutual

theorem Stmt.statement_eq_lines (tab indent : Int) (depth : Nat) : ∀ s : Stmt,
    s.toNode.statement tab (indent + tab * depth) =
      (s.lines depth).flatMap (Line.items tab indent)
  | .ifThen condition block _ | .whileLoop condition block _ | .repeatLoop condition block _ => by
    have hblock := block.items_eq_lines tab indent (depth + 1)
    simp [Stmt.toNode, Node.statement, Node.inBraces, Stmt.lines, conditionalLines, openingLine,
      closingLine, Line.items, Keyword.spelling, indent_deeper, ← hblock]
  | .ifElse condition thenBlock elseBlock _ => by
    have hthen := thenBlock.items_eq_lines tab indent (depth + 1)
    have helse := elseBlock.items_eq_lines tab indent (depth + 1)
    simp [Stmt.toNode, Node.statement, Node.inBraces, Stmt.lines, conditionalLines, openingLine,
      closingLine, Line.items, Keyword.spelling, indent_deeper, ← hthen, ← helse]
  | .assign .. | .increment .. | .decrement .. | .read .. | .write .. | .call ..
  | .returnValue none _ | .returnValue (some _) _ => by
    simp [Stmt.toNode, Node.statement, Stmt.lines, Line.items]

theorem Stmt.statements_eq_lines (tab indent : Int) (depth : Nat) : ∀ ss : List Stmt,
    Node.statements tab (indent + tab * depth) (Stmt.toNodes ss) =
      (Stmt.allLines depth ss).flatMap (Line.items tab indent)
  | [] => rfl
  | s :: rest => by
    rw [Stmt.toNodes, Node.statements, s.statement_eq_lines tab indent depth,
      Stmt.statements_eq_lines tab indent depth rest, Stmt.allLines, List.flatMap_append]

theorem Block.items_eq_lines (tab indent : Int) (depth : Nat) : ∀ b : Block,
    b.declsNode.declarationList tab (indent + tab * depth) ++
        b.stmtsNode.statementList tab (indent + tab * depth) =
      (b.lines depth).flatMap (Line.items tab indent)
  | .mk decls stmts _ => by
    rw [Block.lines, List.flatMap_append, ← declarations_eq_lines,
      ← Stmt.statements_eq_lines tab indent depth stmts]
    rfl

end

theorem Decl.declaration_eq_lines (tab indent : Int) (d : Decl) :
    d.toNode.declaration tab indent = d.lines.flatMap (Line.items tab indent) := by
  cases d with
  | variableDecl v => simp [lines, VariableDecl.line, Line.items, toNode, VariableDecl.toNode,
      Node.declaration]
  | functionDecl f =>
      have hblock := f.body.block.items_eq_lines tab indent 1
      simp only [Int.natCast_one, Int.mul_one] at hblock
      simp [lines, toNode, FunctionDecl.toNode, Node.declaration, Body.toNode,
        Node.functionBodyItems, Node.inBraces, Node.isAbsent, Node.typeItems, Name.toNode,
        Formals.toNode, openingLine, closingLine, Line.items, FunctionDecl.header, ← hblock]
  | structDecl s =>
      have hfields := declarations_eq_lines tab indent 1 (s.first :: s.more)
      simp only [Int.natCast_one, Int.mul_one] at hfields
      rw [lines, List.flatMap_cons, List.flatMap_append, ← hfields]
      simp [toNode, StructDecl.toNode, StructDecl.fields, VariableDecls.toNode, Node.declaration,
        Node.declarationList, Node.inBraces, openingLine, closingLine, Line.items,
        StructDecl.header]

theorem Program.items_eq_lines (tab indent : Int) (p : Program) :
    p.toNode.items tab indent = p.lines.flatMap (Line.items tab indent) := by
  obtain ⟨decls, position⟩ := p
  change Node.declarations tab indent (decls.map Decl.toNode) = (decls.flatMap Decl.lines).flatMap _
  induction decls with
  | nil => rfl
  | cons d rest ih =>
      rw [List.map_cons, Node.declarations, d.declaration_eq_lines, ih, List.flatMap_cons,
        List.flatMap_append]

/-! ## Depths -/

namespace Layout

variable {items items' : List Item}

def EndsLine (items : List Item) : Prop := ∃ text, chars items = text ++ ['\n'] ∧ '\n' ∉ text

theorem EndsLine.append (h : InLine items) (h' : EndsLine items') : EndsLine (items ++ items') := by
  obtain ⟨text, hchars, htext⟩ := h'
  refine ⟨chars items ++ text, by rw [chars_append, hchars, List.append_assoc], ?_⟩
  simpa using ⟨h, htext⟩

def BeginsLine (items : List Item) : Prop :=
  ∃ c more, chars items = c :: more ∧ c ≠ ' ' ∧ c ≠ '\n' ∧ c ≠ '\x7d'

theorem BeginsLine.append (h : BeginsLine items) (items' : List Item) :
    BeginsLine (items ++ items') := by
  obtain ⟨c, more, hchars, hc⟩ := h
  exact ⟨c, more ++ chars items', by rw [chars_append, hchars, List.cons_append], hc⟩

end Layout

open Layout (InLine EndsLine BeginsLine inLine_nil inLine_text inLine_append)

/-- Lines that stand as deep as the braces in front of them say, from a depth on and to a depth.  A
closing brace that begins a line counts for this line already. -/
inductive Lined : Int → List Line → Int → Prop
  | nil {d : Int} : Lined d [] d
  | empty {d d' : Int} {rest : List Line} (h : Lined d rest d') : Lined d (.empty :: rest) d'
  | filled {d d' : Int} {depth : Nat} {items : List Item} {c : Char} {more : List Char}
      {rest : List Line} (hchars : Layout.chars items = c :: more ++ ['\n'])
      (hline : '\n' ∉ c :: more) (hc : c ≠ ' ')
      (hdepth : (depth : Int) = d - if c = '\x7d' then 1 else 0)
      (h : Lined (d + braces (lexemesOf (c :: more))) rest d') :
    Lined d (.filled depth items :: rest) d'

namespace Lined

variable {d d' d'' : Int} {depth : Nat} {lines lines' rest : List Line} {items : List Item}
  {ls : List Lexeme}

theorem append (h : Lined d lines d') (h' : Lined d' lines' d'') :
    Lined d (lines ++ lines') d'' := by
  induction h with
  | nil => exact h'
  | empty _ ih => exact .empty (ih h')
  | filled hchars hline hc hdepth _ ih => exact .filled hchars hline hc hdepth (ih h')

theorem cons (hspells : Spells items ls fun _ => True) (hends : EndsLine items)
    (hbegins : BeginsLine items) (h : Lined (depth + braces ls) rest d') :
    Lined depth (.filled depth items :: rest) d' := by
  obtain ⟨text, htext, hline⟩ := hends
  obtain ⟨c, more, hmore, hc, hfeed, hbrace⟩ := hbegins
  have hspelled := hspells.spelled
  rw [htext] at hspelled
  obtain ⟨more, rfl⟩ : ∃ more, text = c :: more := by
    rw [htext] at hmore
    cases text with
    | nil => exact absurd (List.cons.inj hmore).1.symm hfeed
    | cons b text => exact ⟨text, by rw [(List.cons.inj hmore).1]⟩
  refine .filled htext hline hc (by simp [hbrace]) ?_
  rwa [hspelled.lexemesOf_line]

theorem single (hspells : Spells items ls fun _ => True) (hends : EndsLine items)
    (hbegins : BeginsLine items) (hbraces : braces ls = 0) :
    Lined depth [.filled depth items] depth :=
  cons hspells hends hbegins (by rw [hbraces, Int.add_zero]; exact .nil)

theorem opening (depth : Nat) (hspells : Spells items ls fun _ => True) (hline : InLine items)
    (hbegins : BeginsLine items) (hbraces : braces ls = 0)
    (h : Lined ((depth + 1 : Nat) : Int) rest d') :
    Lined depth (openingLine depth items :: rest) d' := by
  have hends : EndsLine [.text "\x7b\n"] := ⟨['\x7b'], rfl, by decide⟩
  refine cons (hspells.before spells_open) (.append hline hends) (hbegins.append _) ?_
  simpa [hbraces] using h

theorem closing (hspells : Spells items ls fun _ => True) (hends : EndsLine items)
    (h : Lined (depth + braces ls) rest d') :
    Lined ((depth + 1 : Nat) : Int) (closingLine depth items :: rest) d' := by
  obtain ⟨text, htext, hline⟩ := hends
  have hchars : Layout.chars (.text "\x7d" :: items) = '\x7d' :: text ++ ['\n'] := by
    rw [Layout.chars_text, htext]
    rfl
  have hbrace : Spells [.text "\x7d"] [.ofSymbol .rightCurly] fun _ => True :=
    .text (spelled_punctuation .rightCurly (by decide))
  have hspelled := (hbrace.before hspells).spelled
  rw [List.singleton_append, hchars] at hspelled
  refine .filled hchars (by simpa using hline) (by decide) (by simp) ?_
  rw [hspelled.lexemesOf_line]
  have hdepth : ((depth + 1 : Nat) : Int) + braces (.ofSymbol .rightCurly :: ls) =
      depth + braces ls := by
    simp only [braces_cons, Lexeme.brace_ofSymbol, Symbol.brace_rightCurly]
    omega
  exact hdepth ▸ h

theorem close (hspells : Spells items ls fun _ => True) (hends : EndsLine items)
    (hbraces : braces ls = 0) : Lined ((depth + 1 : Nat) : Int) [closingLine depth items] depth :=
  closing hspells hends (by rw [hbraces, Int.add_zero]; exact .nil)

end Lined

/-! ## Statements -/

theorem plain_of_isWordStart {c : Char} (h : isWordStart c = true) :
    c ≠ ' ' ∧ c ≠ '\n' ∧ c ≠ '\x7d' := by
  refine ⟨?_, ?_, ?_⟩ <;>
    · rintro rfl
      revert h
      decide

theorem beginsLine_name {id : Name} (h : (Lexeme.name id.text).Scannable) :
    BeginsLine (id.toNode.expression false) := by
  obtain ⟨⟨c, more, htext, hc, -⟩, -⟩ := h
  exact ⟨c, more, by simp [Name.toNode, Node.expression, htext], plain_of_isWordStart hc⟩

theorem beginsLine_loc {l : Loc} (h : ∀ x ∈ l.leaves, x.Scannable) :
    BeginsLine (l.toNode.expression false) := by
  induction l with
  | name id => exact beginsLine_name (h _ (by simp [Loc.leaves]))
  | field l id p ih =>
      rw [Loc.toNode, Node.expression]
      exact (ih fun x hx => h x (List.mem_append_left _ hx)).append _

theorem beginsLine_text {content : String} {items : List Item} {c : Char} {more : List Char}
    (h : content.toList = c :: more) (hc : c ≠ ' ' ∧ c ≠ '\n' ∧ c ≠ '\x7d') :
    BeginsLine (.text content :: items) :=
  ⟨c, more ++ Layout.chars items, by rw [Layout.chars_text, h, List.cons_append], hc⟩

theorem Layout.Spells.of_indent {items : List Item} {ls : List Lexeme} {next : Char → Prop}
    (h : Spells (.indent 0 :: items) ls next) : Spells items ls next :=
  ⟨fun f hf => h.faultless f (List.mem_cons_of_mem _ hf),
    by simpa [Layout.chars, Layout.Item.chars] using h.spelled⟩

theorem endsLine_semicolon : EndsLine [.text ";\n"] := ⟨[';'], rfl, by decide⟩

theorem Expr.inLine {e : Expr} (h : ∀ x ∈ e.leaves, x.Scannable) :
    InLine (e.toNode.expression false) :=
  (Expr.isExpression_toNode e h).inLine false

theorem Loc.inLine {l : Loc} (h : ∀ x ∈ l.leaves, x.Scannable) :
    InLine (l.toNode.expression false) :=
  (Loc.isLocation_toNode h).inLine false

theorem Name.inLine {id : Name} (h : (Lexeme.name id.text).Scannable) :
    InLine (id.toNode.expression false) :=
  (Name.isName_toNode h).inLine false

theorem Primitive.inLine (type : Primitive) : InLine [.text type.spelling] := by
  cases type <;> exact inLine_text.2 ⟨by decide, inLine_nil⟩

theorem Primitive.beginsLine (type : Primitive) (items : List Item) :
    BeginsLine (.text type.spelling :: items) := by
  cases type <;> exact beginsLine_text rfl (by decide)

theorem VariableDecl.lined {v : VariableDecl} (depth : Nat)
    (h : ∀ id ∈ v.names, (Lexeme.name id.text).Scannable) : Lined depth [v.line depth] depth := by
  have hspells := (spells_variableDecl 0 0 v h).of_indent
  obtain ⟨type, id, p⟩ := v
  simp only [names, List.forall_mem_append, List.forall_mem_singleton] at h
  have hid := Name.inLine h.2
  cases type with
  | primitive type =>
      have hline : InLine ([.text type.spelling] ++ .text " " :: id.toNode.expression false) :=
        inLine_append.2 ⟨type.inLine, inLine_text.2 ⟨by decide, hid⟩⟩
      exact .single hspells (.append hline endsLine_semicolon) (type.beginsLine _)
        (by simp [lexemes, VariableType.lexemes])
  | struct name =>
      have hname := Name.inLine (h.1 name (by simp [VariableType.names]))
      have hline : InLine (.text "struct " :: name.toNode.expression false ++
          .text " " :: id.toNode.expression false) := by
        simpa using ⟨hname, hid⟩
      exact .single hspells (.append hline endsLine_semicolon) (beginsLine_text rfl (by decide))
        (by simp [lexemes, VariableType.lexemes])

theorem lined_variables {vs : List VariableDecl} (depth : Nat)
    (h : ∀ id ∈ vs.flatMap VariableDecl.names, (Lexeme.name id.text).Scannable) :
    Lined depth (vs.map (VariableDecl.line depth)) depth := by
  induction vs with
  | nil => exact .nil
  | cons v rest ih =>
      simp only [List.flatMap_cons, List.forall_mem_append] at h
      exact (v.lined depth h.1).append (ih h.2)

theorem endsLine_end : EndsLine [.text "\n"] := ⟨[], rfl, by decide⟩

theorem lined_conditional {word : Keyword} {condition : Expr} {depth : Nat} {inner : List Line}
    (hcondition : ∀ x ∈ condition.leaves, x.Scannable)
    (h : Lined ((depth + 1 : Nat) : Int) inner ((depth + 1 : Nat) : Int)) :
    Lined depth (conditionalLines depth word condition inner) depth := by
  obtain ⟨c, more, hword, hc, -⟩ := word.exists_spelling_eq_cons
  have hfeed := (Spelling.keyword word).lineFeed_notMem
  refine .opening depth (spells_header word condition hcondition) ?_ ?_ ?_
    (h.append (.close spells_end endsLine_end rfl))
  · simpa [Node.header] using ⟨hfeed, Expr.inLine hcondition⟩
  · exact beginsLine_text (by rw [String.toList_append, hword, List.cons_append])
      (plain_of_isWordStart hc)
  · simp [Expr.conditionLexemes, Written.braces_lexemes]

mutual

theorem Stmt.lined (depth k : Nat) : ∀ s : Stmt, (∀ x ∈ s.sites k, x.2.Scannable) →
    Lined depth (s.lines depth) depth
  | .assign a p, h => by
    have hspells := (spells_statement 0 0 k (.assign a p) h).of_indent
    simp only [Stmt.sites, List.forall_mem_singleton] at h
    have hbegins := beginsLine_loc fun x hx => h x (List.mem_append_left _ hx)
    exact .single hspells (.append (Expr.inLine h) endsLine_semicolon)
      (.append (.append hbegins _) _) (by simp [Stmt.lexemes, Written.braces_lexemes])
  | .increment loc p, h => by
    have hspells := (spells_statement 0 0 k (.increment loc p) h).of_indent
    simp only [Stmt.sites, List.forall_mem_singleton] at h
    exact .single hspells (.append (Loc.inLine h) ⟨"++;".toList, rfl, by decide⟩)
      ((beginsLine_loc h).append _) (by simp [Stmt.lexemes, Loc.braces_lexemes])
  | .decrement loc p, h => by
    have hspells := (spells_statement 0 0 k (.decrement loc p) h).of_indent
    simp only [Stmt.sites, List.forall_mem_singleton] at h
    exact .single hspells (.append (Loc.inLine h) ⟨"--;".toList, rfl, by decide⟩)
      ((beginsLine_loc h).append _) (by simp [Stmt.lexemes, Loc.braces_lexemes])
  | .read loc p, h => by
    have hspells := (spells_statement 0 0 k (.read loc p) h).of_indent
    simp only [Stmt.sites, List.forall_mem_singleton] at h
    have hline := inLine_text.2 ⟨(by decide : '\n' ∉ "cin >> ".toList), Loc.inLine h⟩
    exact .single hspells (.append hline endsLine_semicolon) (beginsLine_text rfl (by decide))
      (by simp [Stmt.lexemes, Loc.braces_lexemes])
  | .write exp p, h => by
    have hspells := (spells_statement 0 0 k (.write exp p) h).of_indent
    simp only [Stmt.sites, List.forall_mem_singleton] at h
    have hline := inLine_text.2 ⟨(by decide : '\n' ∉ "cout << ".toList), Expr.inLine h⟩
    exact .single hspells (.append hline endsLine_semicolon) (beginsLine_text rfl (by decide))
      (by simp [Stmt.lexemes, Written.braces_lexemes])
  | .call c p, h => by
    have hspells := (spells_statement 0 0 k (.call c p) h).of_indent
    simp only [Stmt.sites, List.forall_mem_singleton] at h
    have hbegins : BeginsLine (c.callee.toNode.expression false) :=
      beginsLine_name (h _ List.mem_cons_self)
    exact .single hspells (.append (Expr.inLine h) endsLine_semicolon)
      (.append (.append (.append hbegins _) _) _) (by simp [Stmt.lexemes, Written.braces_lexemes])
  | .returnValue none p, h => by
    have hspells := (spells_statement 0 0 k (.returnValue none p) h).of_indent
    exact .single hspells ⟨"return;".toList, rfl, by decide⟩ (beginsLine_text rfl (by decide)) rfl
  | .returnValue (some value) p, h => by
    have hspells := spells_statement 0 0 k (.returnValue (some value) p) h
    simp only [Stmt.sites, List.forall_mem_singleton] at h
    have hline := inLine_text.2 ⟨(by decide : '\n' ∉ "return ".toList), Expr.inLine h⟩
    simp [Stmt.toNode, Node.statement, value.isAbsent_toNode, Stmt.lines] at hspells ⊢
    exact .single hspells.of_indent (.append hline endsLine_semicolon)
      (beginsLine_text rfl (by decide)) (by simp [Stmt.lexemes, Written.braces_lexemes])
  | .ifThen condition block p, h | .whileLoop condition block p, h
  | .repeatLoop condition block p, h => by
    simp only [Stmt.sites, List.forall_mem_cons] at h
    exact lined_conditional h.1 (block.lined (depth + 1) k h.2)
  | .ifElse condition thenBlock elseBlock p, h => by
    simp only [Stmt.sites, List.forall_mem_cons, List.forall_mem_append] at h
    have hthen := thenBlock.lined (depth + 1) k h.2.1
    have helse := elseBlock.lined (depth + 1) k h.2.2
    have hword : Spells [.text " else "] [.ofKeyword .elseWord] fun _ => True :=
      .text (spelled_blank.before (spelled_keyword_blank .elseWord))
    have hends : EndsLine [.text " else ", .text "\x7b\n"] := ⟨" else \x7b".toList, rfl, by decide⟩
    exact lined_conditional h.1 (hthen.append (.closing (hword.before spells_open) hends helse))

theorem Stmt.lined_all (depth k : Nat) : ∀ ss : List Stmt,
    (∀ x ∈ Stmt.allSites k ss, x.2.Scannable) → Lined depth (Stmt.allLines depth ss) depth
  | [], _ => .nil
  | s :: rest, h => by
    simp only [Stmt.allSites, List.forall_mem_append] at h
    exact (s.lined depth k h.1).append (Stmt.lined_all depth k rest h.2)

theorem Block.lined (depth k : Nat) : ∀ b : Block, (∀ x ∈ b.sites k, x.2.Scannable) →
    Lined depth (b.lines depth) depth
  | .mk decls stmts p, h => by
    simp only [Block.sites, List.cons_append, List.forall_mem_cons, List.forall_mem_append,
      List.forall_mem_map] at h
    exact (lined_variables depth h.2.1).append (Stmt.lined_all depth (k + 1) stmts h.2.2)

end

/-! ## Declarations -/

theorem spells_gap : Spells [.text " "] [] fun _ => True := .text spelled_blank

theorem Formals.inLine {fs : Formals}
    (h : ∀ id ∈ fs.items.map Formal.id, (Lexeme.name id.text).Scannable) :
    InLine fs.toNode.formalsItems := by
  have hitems : ∀ items ∈ (fs.items.map Formal.toNode).map Node.formalItems, InLine items := by
    rw [List.map_map]
    refine List.forall_mem_map.2 fun f hf => ?_
    have hid := Name.inLine (h f.id (List.mem_map_of_mem hf))
    exact inLine_append.2 ⟨f.type.inLine, inLine_text.2 ⟨by decide, hid⟩⟩
  simpa [toNode, Node.formalsItems] using Node.inLine_commaSeparated hitems

theorem Formals.braces_lexemes (fs : Formals) : braces fs.lexemes = 0 := by
  have hitems : ∀ items : List Formal, braces (separated (items.map Formal.lexemes)) = 0 := by
    intro items
    induction items with
    | nil => rfl
    | cons f rest ih =>
        cases rest with
        | nil => rfl
        | cons f' rest => simpa [separated, Formal.lexemes] using ih
  simp [lexemes, hitems]

theorem FunctionDecl.spells_header {f : FunctionDecl} (hid : (Lexeme.name f.id.text).Scannable)
    (hformals : ∀ id ∈ f.formals.items.map Formal.id, (Lexeme.name id.text).Scannable) :
    Spells f.header (.ofKeyword f.type.keyword :: .name f.id.text :: f.formals.lexemes)
      fun _ => True := by
  have htype : Spells [.text f.type.spelling] [.ofKeyword f.type.keyword] EndsWord :=
    .text (spelled_keyword f.type.keyword)
  have hlist := (spells_formals f.formals hformals).beforeHead spells_gap rfl endsWord_blank
  have hhead := (spells_name f.id hid).beforeHead hlist rfl (endsWord_of_mem (by decide))
  simpa [header] using spells_space htype hhead

theorem StructDecl.spells_header {s : StructDecl} (hid : (Lexeme.name s.id.text).Scannable) :
    Spells s.header [.ofKeyword .struct, .name s.id.text] fun _ => True := by
  have hword : Spells [.text "struct "] [.ofKeyword .struct] fun _ => True :=
    .text (spelled_keyword_blank .struct)
  exact hword.before ((spells_name s.id hid).beforeHead spells_gap rfl endsWord_blank)

theorem Decl.lined (d : Decl) (h : ∀ x ∈ d.sites, x.2.Scannable) : Lined 0 d.lines 0 := by
  cases d with
  | variableDecl v =>
      exact v.lined 0 fun id hid =>
        h (0, .name id) (List.mem_append_left _ (List.mem_map_of_mem hid))
  | functionDecl f =>
      simp only [sites, names, List.forall_mem_append, List.forall_mem_map,
        List.forall_mem_cons] at h
      obtain ⟨⟨hid, hformals⟩, hbody⟩ := h
      have hformals : ∀ id ∈ f.formals.items.map Formal.id, (Lexeme.name id.text).Scannable :=
        List.forall_mem_map.2 hformals
      have hlist := Formals.inLine hformals
      have hline : InLine f.header :=
        inLine_append.2 ⟨f.type.inLine, by simpa using ⟨Name.inLine hid, hlist⟩⟩
      refine .opening 0 (f.spells_header hid hformals) hline (f.type.beginsLine _)
        (by simp [Formals.braces_lexemes]) ?_
      exact (f.body.block.lined 1 0 hbody).append
        (.closing spells_end endsLine_end (.empty .nil))
  | structDecl s =>
      simp only [sites, names, List.append_nil, List.forall_mem_map, List.forall_mem_cons] at h
      obtain ⟨hid, hfields⟩ := h
      have hline : InLine s.header := by simpa [StructDecl.header] using Name.inLine hid
      refine .opening 0 (s.spells_header hid) hline (beginsLine_text rfl (by decide)) rfl ?_
      exact (lined_variables 1 hfields).append (.close spells_lineEnd endsLine_semicolon rfl)

theorem Program.lined {p : Program} (h : ∀ x ∈ p.sites, x.2.Scannable) : Lined 0 p.lines 0 := by
  obtain ⟨decls, position⟩ := p
  replace h : ∀ x ∈ decls.flatMap Decl.sites, x.2.Scannable := h
  change Lined 0 (decls.flatMap Decl.lines) 0
  induction decls with
  | nil => exact .nil
  | cons d rest ih =>
      simp only [List.flatMap_cons, List.forall_mem_append] at h
      exact (d.lined h.1).append (ih h.2)

end Cmm

import Cmm.Proofs.Node.Layout
import Cmm.Node.Printer

/-!
# Indentation

Printing a tree indents by the tab width once for every block around, so a tree has no more
different indentations than nested blocks, and one.
-/

namespace Cmm

open Layout

namespace Node

mutual

/-- The number of blocks on the longest way into a tree. -/
def nesting : Node → Nat
  | .list _ items _ => greatestNesting items
  | .functionDecl _ _ _ body _ => body.nesting
  | .structDecl _ decls _ => 1 + decls.nesting
  | .functionBody decls stmts _ | .ifThen _ decls stmts _ | .whileLoop _ decls stmts _
  | .repeatLoop _ decls stmts _ => 1 + max decls.nesting stmts.nesting
  | .ifElse _ thenDecls thenStmts elseDecls elseStmts _ =>
    1 + max (max thenDecls.nesting thenStmts.nesting) (max elseDecls.nesting elseStmts.nesting)
  | .program decls _ => decls.nesting
  | _ => 0

def greatestNesting : List Node → Nat
  | [] => 0
  | n :: rest => max n.nesting (greatestNesting rest)

end

end Node

namespace Layout

/-- Every indentation is wider than a given one by some tab widths, a number of them at most. -/
def IndentedBy (tab indent : Int) (depth : Nat) (items : List Item) : Prop :=
  ∀ width, Item.indent width ∈ items → ∃ k ≤ depth, width = indent + k * tab

section

variable {tab indent : Int} {depth depth' : Nat} {items items' : List Item}

@[simp] theorem indentedBy_nil : IndentedBy tab indent depth [] := nofun

@[simp] theorem indentedBy_text {content : String} :
    IndentedBy tab indent depth (.text content :: items) ↔ IndentedBy tab indent depth items := by
  simp [IndentedBy]

theorem indentedBy_fault (f : PrintFault) : IndentedBy tab indent depth [.fault f] := by
  simp [IndentedBy]

@[simp] theorem indentedBy_indent :
    IndentedBy tab indent depth (.indent indent :: items) ↔ IndentedBy tab indent depth items := by
  refine ⟨fun h width hw => h width (List.mem_cons_of_mem _ hw), fun h width hw => ?_⟩
  rcases List.mem_cons.1 hw with heq | hw
  · cases heq
    exact ⟨0, Nat.zero_le _, by simp⟩
  · exact h width hw

@[simp] theorem indentedBy_append : IndentedBy tab indent depth (items ++ items') ↔
    IndentedBy tab indent depth items ∧ IndentedBy tab indent depth items' := by
  simp only [IndentedBy, List.mem_append, or_imp, forall_and]

theorem IndentedBy.mono (h : IndentedBy tab indent depth items) (hdepth : depth ≤ depth') :
    IndentedBy tab indent depth' items := fun width hw =>
  let ⟨k, hk, hwidth⟩ := h width hw
  ⟨k, Nat.le_trans hk hdepth, hwidth⟩

theorem IndentedBy.inBlock (h : IndentedBy tab (indent + tab) depth items) :
    IndentedBy tab indent (1 + depth) items := by
  intro width hw
  obtain ⟨k, hk, rfl⟩ := h width hw
  refine ⟨1 + k, Nat.add_le_add_left hk 1, ?_⟩
  rw [Int.natCast_add, Int.add_mul, Int.add_assoc, Int.natCast_one, Int.one_mul]

theorem indentedBy_ite {p : Prop} [Decidable p] (h : IndentedBy tab indent depth items)
    (h' : IndentedBy tab indent depth items') :
    IndentedBy tab indent depth (if p then items else items') := by
  split
  · exact h
  · exact h'

theorem IndentedBy.fits (h : IndentedBy tab indent depth items)
    (hfits : ∀ k : Nat, k ≤ depth → fitsIndex (indent + k * tab) = true) : Fits items := by
  intro width hw
  obtain ⟨k, hk, rfl⟩ := h width hw
  exact hfits k hk

end

end Layout

namespace Node

variable {tab indent : Int} {depth : Nat}

@[simp] theorem indentedBy_inParens {parens : Bool} {items : List Item} :
    IndentedBy tab indent depth (inParens parens items) ↔ IndentedBy tab indent depth items := by
  cases parens <;> simp [inParens]

theorem indentedBy_commaSeparated {itemss : List (List Item)}
    (h : ∀ items ∈ itemss, IndentedBy tab indent depth items) :
    IndentedBy tab indent depth (commaSeparated itemss) := by
  fun_induction commaSeparated itemss with
  | case1 => simp
  | case2 items => exact h items (by simp)
  | case3 items rest _ ih =>
      rw [List.forall_mem_cons] at h
      simpa using ⟨h.1, ih h.2⟩

mutual

@[simp] theorem indentedBy_expression (parens : Bool) (n : Node) :
    IndentedBy tab indent depth (n.expression parens) := by
  cases n with
  | number | string | truth | name => simp [expression]
  | dot loc id p => simp [expression, indentedBy_expression false loc, indentedBy_expression false id]
  | assign lhs exp p =>
      simp [expression, indentedBy_expression false lhs, indentedBy_expression false exp]
  | call id args p =>
      simp [expression, indentedBy_expression false id, indentedBy_arguments args]
  | unary op operand p => simp [expression, indentedBy_expression _ operand]
  | binary op left right p =>
      simp [expression, indentedBy_expression _ left, indentedBy_expression _ right]
  | _ => exact indentedBy_inParens.2 (indentedBy_fault _)

@[simp] theorem indentedBy_arguments (n : Node) : IndentedBy tab indent depth n.arguments := by
  cases n with
  | absent => exact indentedBy_nil
  | list cls items p =>
      cases cls with
      | expressions => exact indentedBy_commaSeparated (indentedBy_expressions items)
      | _ => exact indentedBy_fault _
  | _ => exact indentedBy_fault _

theorem indentedBy_expressions (ns : List Node) :
    ∀ items ∈ expressions ns, IndentedBy tab indent depth items := by
  cases ns with
  | nil => nofun
  | cons n rest =>
      exact List.forall_mem_cons.2 ⟨indentedBy_expression false n, indentedBy_expressions rest⟩

end

@[simp] theorem indentedBy_typeItems (n : Node) : IndentedBy tab indent depth n.typeItems := by
  cases n with
  | primitive type p => simp [typeItems]
  | structType id p => simp [typeItems]
  | _ => exact indentedBy_fault _

@[simp] theorem indentedBy_formalItems (n : Node) : IndentedBy tab indent depth n.formalItems := by
  cases n with
  | formal type id p | variableDecl type id size p | functionDecl type id formals body p =>
      simp [formalItems]
  | _ => exact indentedBy_fault _

@[simp] theorem indentedBy_formalsItems (n : Node) : IndentedBy tab indent depth n.formalsItems := by
  have hlacks : ∀ f, IndentedBy tab indent depth [.text "(", .fault f] := fun f =>
    indentedBy_text.2 (indentedBy_fault f)
  cases n with
  | list cls items p =>
      cases cls with
      | formals =>
          have hitems : ∀ layout ∈ items.map formalItems, IndentedBy tab indent depth layout := by
            simp
          simp [formalsItems, indentedBy_commaSeparated hitems]
      | _ => exact hlacks _
  | _ => exact hlacks _

@[simp] theorem indentedBy_header (keyword : String) (n : Node) :
    IndentedBy tab indent depth (header keyword n) := by
  simp [header]

@[simp] theorem indentedBy_inBraces {items : List Item} :
    IndentedBy tab indent depth (inBraces indent items) ↔ IndentedBy tab indent depth items := by
  simp [inBraces]

theorem indentedBy_block {decls stmts : List Item} {m n : Nat}
    (hdecls : IndentedBy tab (indent + tab) m decls) (hstmts : IndentedBy tab (indent + tab) n stmts) :
    IndentedBy tab indent (1 + max m n) (inBraces indent (decls ++ stmts)) := by
  rw [indentedBy_inBraces, indentedBy_append]
  have hle := Nat.le_max_left m n
  have hle' := Nat.le_max_right m n
  exact ⟨hdecls.inBlock.mono (by omega), hstmts.inBlock.mono (by omega)⟩

mutual

theorem indentedBy_declarationList (tab indent : Int) (n : Node) :
    IndentedBy tab indent n.nesting (n.declarationList tab indent) := by
  cases n with
  | absent => exact indentedBy_nil
  | list cls items p =>
      cases cls with
      | declarations => exact indentedBy_declarations tab indent items
      | _ => exact indentedBy_fault _
  | _ => exact indentedBy_fault _

theorem indentedBy_declarations (tab indent : Int) (ns : List Node) :
    IndentedBy tab indent (greatestNesting ns) (declarations tab indent ns) := by
  cases ns with
  | nil => exact indentedBy_nil
  | cons n rest =>
      rw [declarations, greatestNesting, indentedBy_append]
      exact ⟨(indentedBy_declaration tab indent n).mono (Nat.le_max_left _ _),
        (indentedBy_declarations tab indent rest).mono (Nat.le_max_right _ _)⟩

theorem indentedBy_declaration (tab indent : Int) (n : Node) :
    IndentedBy tab indent n.nesting (n.declaration tab indent) := by
  have hfault : ∀ depth f, IndentedBy tab indent depth [.indent indent, .fault f] := fun _ f =>
    indentedBy_indent.2 (indentedBy_fault f)
  cases n with
  | variableDecl type id size p => simp [declaration]
  | functionDecl type id formals body p =>
      have hbody := indentedBy_functionBodyItems tab indent body
      simp [declaration, nesting, indentedBy_ite, hbody]
  | structDecl id decls p =>
      have hdecls := (indentedBy_declarationList tab (indent + tab) decls).inBlock
      simpa [declaration, nesting] using hdecls
  | _ => exact hfault _ _

theorem indentedBy_functionBodyItems (tab indent : Int) (n : Node) :
    IndentedBy tab indent n.nesting (n.functionBodyItems tab indent) := by
  cases n with
  | absent => simp [functionBodyItems]
  | functionBody decls stmts p | ifThen exp decls stmts p | whileLoop exp decls stmts p
  | repeatLoop exp decls stmts p =>
      have hblock := indentedBy_block (indentedBy_declarationList tab (indent + tab) decls)
        (indentedBy_statementList tab (indent + tab) stmts)
      simpa [functionBodyItems, nesting] using hblock
  | _ => exact indentedBy_fault _

theorem indentedBy_statementList (tab indent : Int) (n : Node) :
    IndentedBy tab indent n.nesting (n.statementList tab indent) := by
  cases n with
  | absent => exact indentedBy_nil
  | list cls items p =>
      cases cls with
      | statements => exact indentedBy_statements tab indent items
      | _ => exact indentedBy_fault _
  | _ => exact indentedBy_fault _

theorem indentedBy_statements (tab indent : Int) (ns : List Node) :
    IndentedBy tab indent (greatestNesting ns) (statements tab indent ns) := by
  cases ns with
  | nil => exact indentedBy_nil
  | cons n rest =>
      rw [statements, greatestNesting, indentedBy_append]
      exact ⟨(indentedBy_statement tab indent n).mono (Nat.le_max_left _ _),
        (indentedBy_statements tab indent rest).mono (Nat.le_max_right _ _)⟩

theorem indentedBy_statement (tab indent : Int) (n : Node) :
    IndentedBy tab indent n.nesting (n.statement tab indent) := by
  have hfault : ∀ depth f, IndentedBy tab indent depth [.indent indent, .fault f] := fun _ f =>
    indentedBy_indent.2 (indentedBy_fault f)
  cases n with
  | assignment exp p | callStatement exp p | increment exp p | decrement exp p | read exp p
  | write exp p => simp [statement]
  | returnStatement exp p => simp [statement, indentedBy_ite]
  | ifThen exp decls stmts p | whileLoop exp decls stmts p | repeatLoop exp decls stmts p =>
      have hblock := indentedBy_block (indentedBy_declarationList tab (indent + tab) decls)
        (indentedBy_statementList tab (indent + tab) stmts)
      simpa [statement, nesting] using hblock
  | ifElse exp thenDecls thenStmts elseDecls elseStmts p =>
      have hthen := indentedBy_block (indentedBy_declarationList tab (indent + tab) thenDecls)
        (indentedBy_statementList tab (indent + tab) thenStmts)
      have helse := indentedBy_block (indentedBy_declarationList tab (indent + tab) elseDecls)
        (indentedBy_statementList tab (indent + tab) elseStmts)
      have hleft := Nat.le_max_left (max thenDecls.nesting thenStmts.nesting)
        (max elseDecls.nesting elseStmts.nesting)
      have hright := Nat.le_max_right (max thenDecls.nesting thenStmts.nesting)
        (max elseDecls.nesting elseStmts.nesting)
      simp only [statement, nesting, List.cons_append, List.append_assoc, indentedBy_indent,
        indentedBy_append, indentedBy_header, indentedBy_text, indentedBy_nil, true_and, and_true]
      exact ⟨hthen.mono (Nat.add_le_add_left hleft 1), helse.mono (Nat.add_le_add_left hright 1)⟩
  | _ => exact hfault _ _

end

theorem indentedBy_items (tab indent : Int) (n : Node) :
    IndentedBy tab indent n.nesting (n.items tab indent) := by
  cases n with
  | absent => exact indentedBy_fault _
  | base cls p =>
      cases cls with
      | statement => exact indentedBy_statement tab indent (.base .statement p)
      | expression => exact indentedBy_expression false (.base .expression p)
      | _ => exact indentedBy_fault _
  | program decls p => exact indentedBy_declarationList tab indent decls
  | list cls items p =>
      cases cls with
      | declarations => exact indentedBy_declarationList tab indent (.list .declarations items p)
      | formals => exact indentedBy_formalsItems (.list .formals items p)
      | statements => exact indentedBy_statementList tab indent (.list .statements items p)
      | expressions => exact indentedBy_arguments (.list .expressions items p)
  | variableDecl | functionDecl | structDecl => exact indentedBy_declaration tab indent _
  | formal type id p => exact indentedBy_formalItems (.formal type id p)
  | functionBody => exact indentedBy_functionBodyItems tab indent _
  | primitive type p => exact indentedBy_typeItems (.primitive type p)
  | structType id p => exact indentedBy_typeItems (.structType id p)
  | assignment | increment | decrement | read | write | ifThen | ifElse | whileLoop | repeatLoop
  | callStatement | returnStatement => exact indentedBy_statement tab indent _
  | number | string | truth | name | dot | assign | call | unary | binary =>
      exact indentedBy_expression false _

end Node

end Cmm

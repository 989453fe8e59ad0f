import Cmm.Node.Equality
import Cmm.Node.Printer

/-!
# Trees without positions

Equal trees are the same once every position is forgotten, and printing does not look at positions;
so equal trees have the same text.
-/

namespace Cmm.Node

mutual

/-- The tree with the same position everywhere. -/
def unplaced : Node → Node
  | .absent => .absent
  | .base cls _ => .base cls .start
  | .primitive type _ => .primitive type .start
  | .structType id _ => .structType id.unplaced .start
  | .number value _ => .number value .start
  | .string raw _ => .string raw .start
  | .truth value _ => .truth value .start
  | .name text _ => .name text .start
  | .dot loc id _ => .dot loc.unplaced id.unplaced .start
  | .assign lhs exp _ => .assign lhs.unplaced exp.unplaced .start
  | .call id args _ => .call id.unplaced args.unplaced .start
  | .unary op operand _ => .unary op operand.unplaced .start
  | .binary op left right _ => .binary op left.unplaced right.unplaced .start
  | .list cls items _ => .list cls (allUnplaced items) .start
  | .variableDecl type id size _ => .variableDecl type.unplaced id.unplaced size .start
  | .formal type id _ => .formal type.unplaced id.unplaced .start
  | .functionDecl type id formals body _ =>
    .functionDecl type.unplaced id.unplaced formals.unplaced body.unplaced .start
  | .functionBody decls stmts _ => .functionBody decls.unplaced stmts.unplaced .start
  | .structDecl id decls _ => .structDecl id.unplaced decls.unplaced .start
  | .assignment exp _ => .assignment exp.unplaced .start
  | .increment exp _ => .increment exp.unplaced .start
  | .decrement exp _ => .decrement exp.unplaced .start
  | .read exp _ => .read exp.unplaced .start
  | .write exp _ => .write exp.unplaced .start
  | .ifThen exp decls stmts _ => .ifThen exp.unplaced decls.unplaced stmts.unplaced .start
  | .ifElse exp thenDecls thenStmts elseDecls elseStmts _ =>
    .ifElse exp.unplaced thenDecls.unplaced thenStmts.unplaced elseDecls.unplaced
      elseStmts.unplaced .start
  | .whileLoop exp decls stmts _ => .whileLoop exp.unplaced decls.unplaced stmts.unplaced .start
  | .repeatLoop exp decls stmts _ => .repeatLoop exp.unplaced decls.unplaced stmts.unplaced .start
  | .callStatement exp _ => .callStatement exp.unplaced .start
  | .returnStatement exp _ => .returnStatement exp.unplaced .start
  | .program decls _ => .program decls.unplaced .start

def allUnplaced : List Node → List Node
  | [] => []
  | n :: rest => n.unplaced :: allUnplaced rest

end

theorem allUnplaced_eq_map (ns : List Node) : allUnplaced ns = ns.map unplaced := by
  induction ns with
  | nil => rfl
  | cons n rest ih => rw [allUnplaced, ih, List.map_cons]

theorem unplaced_eq_of_sameAs : ∀ n m : Node, n.sameAs m = true → n.unplaced = m.unplaced := by
  apply sameAs.induct (fun n m => n.sameAs m = true → n.unplaced = m.unplaced)
    (fun ns ms => allSameAs ns ms = true → allUnplaced ns = allUnplaced ms)
  all_goals
    intros
    simp_all [sameAs, allSameAs, unplaced, allUnplaced]

theorem sameAs_of_unplaced_eq (n m : Node) (h : n.unplaced = m.unplaced) : n.sameAs m = true := by
  revert n m
  apply @Node.rec (fun n => ∀ m : Node, n.unplaced = m.unplaced → n.sameAs m = true)
    (fun ns => ∀ ms : List Node, allUnplaced ns = allUnplaced ms → allSameAs ns ms = true)
  all_goals
    intros
    rename_i m h
    cases m <;> first
      | (cases h; done)
      | simp_all [sameAs, allSameAs, unplaced, allUnplaced]

/-! ## Printing -/

@[simp] theorem isAssign_unplaced (n : Node) : n.unplaced.isAssign = n.isAssign := by
  cases n <;> rfl

@[simp] theorem isUnary_unplaced (n : Node) : n.unplaced.isUnary = n.isUnary := by
  cases n <;> rfl

@[simp] theorem isAbsent_unplaced (n : Node) : n.unplaced.isAbsent = n.isAbsent := by
  cases n <;> rfl

mutual

@[simp] theorem expression_unplaced (n : Node) (parens : Bool) :
    n.unplaced.expression parens = n.expression parens := by
  cases n with
  | dot loc id p =>
      simp only [unplaced, expression, expression_unplaced loc, expression_unplaced id]
  | assign lhs exp p =>
      simp only [unplaced, expression, expression_unplaced lhs, expression_unplaced exp]
  | call id args p =>
      simp only [unplaced, expression, expression_unplaced id, arguments_unplaced args]
  | unary op operand p =>
      simp only [unplaced, expression, isAssign_unplaced, isUnary_unplaced,
        expression_unplaced operand]
  | binary op left right p =>
      simp only [unplaced, expression, isAssign_unplaced, expression_unplaced left,
        expression_unplaced right]
  | _ => rfl

@[simp] theorem arguments_unplaced (n : Node) : n.unplaced.arguments = n.arguments := by
  cases n with
  | list cls items p =>
      cases cls with
      | expressions => simp only [unplaced, arguments, expressions_unplaced items]
      | _ => rfl
  | truth value p => cases value <;> rfl
  | unary op operand p => cases op <;> rfl
  | binary op left right p => cases op <;> rfl
  | _ => rfl

theorem expressions_unplaced (ns : List Node) : expressions (allUnplaced ns) = expressions ns := by
  cases ns with
  | nil => rfl
  | cons n rest =>
      simp only [allUnplaced, expressions, expression_unplaced n, expressions_unplaced rest]

end

@[simp] theorem typeItems_unplaced (n : Node) : n.unplaced.typeItems = n.typeItems := by
  cases n with
  | structType id p => simp only [unplaced, typeItems, expression_unplaced]
  | truth value p => cases value <;> rfl
  | unary op operand p => cases op <;> rfl
  | binary op left right p => cases op <;> rfl
  | _ => rfl

@[simp] theorem formalItems_unplaced (n : Node) : n.unplaced.formalItems = n.formalItems := by
  cases n with
  | formal type id p | variableDecl type id size p | functionDecl type id formals body p =>
      simp only [unplaced, formalItems, typeItems_unplaced, expression_unplaced]
  | truth value p => cases value <;> rfl
  | unary op operand p => cases op <;> rfl
  | binary op left right p => cases op <;> rfl
  | _ => rfl

theorem map_formalItems_unplaced (ns : List Node) :
    (allUnplaced ns).map formalItems = ns.map formalItems := by
  induction ns with
  | nil => rfl
  | cons n rest ih => rw [allUnplaced, List.map_cons, List.map_cons, formalItems_unplaced, ih]

@[simp] theorem formalsItems_unplaced (n : Node) : n.unplaced.formalsItems = n.formalsItems := by
  cases n with
  | list cls items p =>
      cases cls with
      | formals => simp only [unplaced, formalsItems, map_formalItems_unplaced]
      | _ => rfl
  | truth value p => cases value <;> rfl
  | unary op operand p => cases op <;> rfl
  | binary op left right p => cases op <;> rfl
  | _ => rfl

@[simp] theorem header_unplaced (keyword : String) (n : Node) :
    header keyword n.unplaced = header keyword n := by
  rw [header, header, expression_unplaced]

mutual

@[simp] theorem declarationList_unplaced (tab indent : Int) (n : Node) :
    n.unplaced.declarationList tab indent = n.declarationList tab indent := by
  cases n with
  | list cls items p =>
      cases cls with
      | declarations =>
          simp only [unplaced, declarationList, declarations_unplaced tab indent items]
      | _ => rfl
  | truth value p => cases value <;> rfl
  | unary op operand p => cases op <;> rfl
  | binary op left right p => cases op <;> rfl
  | _ => rfl

theorem declarations_unplaced (tab indent : Int) (ns : List Node) :
    declarations tab indent (allUnplaced ns) = declarations tab indent ns := by
  cases ns with
  | nil => rfl
  | cons n rest =>
      simp only [allUnplaced, declarations, declaration_unplaced tab indent n,
        declarations_unplaced tab indent rest]

@[simp] theorem declaration_unplaced (tab indent : Int) (n : Node) :
    n.unplaced.declaration tab indent = n.declaration tab indent := by
  cases n with
  | variableDecl type id size p =>
      simp only [unplaced, declaration, typeItems_unplaced, expression_unplaced]
  | functionDecl type id formals body p =>
      simp only [unplaced, declaration, isAbsent_unplaced, typeItems_unplaced, expression_unplaced,
        formalsItems_unplaced, functionBodyItems_unplaced tab indent body]
  | structDecl id decls p =>
      simp only [unplaced, declaration, expression_unplaced,
        declarationList_unplaced tab (indent + tab) decls]
  | truth value p => cases value <;> rfl
  | unary op operand p => cases op <;> rfl
  | binary op left right p => cases op <;> rfl
  | _ => rfl

@[simp] theorem functionBodyItems_unplaced (tab indent : Int) (n : Node) :
    n.unplaced.functionBodyItems tab indent = n.functionBodyItems tab indent := by
  cases n with
  | functionBody decls stmts p | ifThen exp decls stmts p | whileLoop exp decls stmts p
  | repeatLoop exp decls stmts p =>
      simp only [unplaced, functionBodyItems, declarationList_unplaced tab (indent + tab) decls,
        statementList_unplaced tab (indent + tab) stmts]
  | truth value p => cases value <;> rfl
  | unary op operand p => cases op <;> rfl
  | binary op left right p => cases op <;> rfl
  | _ => rfl

@[simp] theorem statementList_unplaced (tab indent : Int) (n : Node) :
    n.unplaced.statementList tab indent = n.statementList tab indent := by
  cases n with
  | list cls items p =>
      cases cls with
      | statements =>
          simp only [unplaced, statementList, statements_unplaced tab indent items]
      | _ => rfl
  | truth value p => cases value <;> rfl
  | unary op operand p => cases op <;> rfl
  | binary op left right p => cases op <;> rfl
  | _ => rfl

theorem statements_unplaced (tab indent : Int) (ns : List Node) :
    statements tab indent (allUnplaced ns) = statements tab indent ns := by
  cases ns with
  | nil => rfl
  | cons n rest =>
      simp only [allUnplaced, statements, statement_unplaced tab indent n,
        statements_unplaced tab indent rest]

@[simp] theorem statement_unplaced (tab indent : Int) (n : Node) :
    n.unplaced.statement tab indent = n.statement tab indent := by
  cases n with
  | assignment exp p | callStatement exp p | increment exp p | decrement exp p | read exp p
  | write exp p | returnStatement exp p =>
      simp only [unplaced, statement, isAbsent_unplaced, expression_unplaced]
  | ifThen exp decls stmts p | whileLoop exp decls stmts p | repeatLoop exp decls stmts p =>
      simp only [unplaced, statement, header_unplaced,
        declarationList_unplaced tab (indent + tab) decls,
        statementList_unplaced tab (indent + tab) stmts]
  | ifElse exp thenDecls thenStmts elseDecls elseStmts p =>
      simp only [unplaced, statement, header_unplaced,
        declarationList_unplaced tab (indent + tab) thenDecls,
        statementList_unplaced tab (indent + tab) thenStmts,
        declarationList_unplaced tab (indent + tab) elseDecls,
        statementList_unplaced tab (indent + tab) elseStmts]
  | truth value p => cases value <;> rfl
  | unary op operand p => cases op <;> rfl
  | binary op left right p => cases op <;> rfl
  | _ => rfl

end

theorem items_unplaced (tab indent : Int) (n : Node) :
    n.unplaced.items tab indent = n.items tab indent := by
  have hdeclaration := n.declaration_unplaced tab indent
  have hstatement := n.statement_unplaced tab indent
  have hbody := n.functionBodyItems_unplaced tab indent
  have hexpression := n.expression_unplaced false
  have htype := n.typeItems_unplaced
  have hformal := n.formalItems_unplaced
  cases n with
  | absent => rfl
  | base cls p => cases cls <;> rfl
  | program decls p => exact declarationList_unplaced tab indent decls
  | list cls items p =>
      cases cls with
      | declarations => exact declarationList_unplaced tab indent (.list .declarations items p)
      | formals => exact formalsItems_unplaced (.list .formals items p)
      | statements => exact statementList_unplaced tab indent (.list .statements items p)
      | expressions => exact arguments_unplaced (.list .expressions items p)
  | variableDecl | functionDecl | structDecl => exact hdeclaration
  | formal => exact hformal
  | functionBody => exact hbody
  | primitive | structType => exact htype
  | assignment | increment | decrement | read | write | ifThen | ifElse | whileLoop | repeatLoop
  | callStatement | returnStatement => exact hstatement
  | number | string | truth | name | dot | assign | call | unary | binary => exact hexpression

theorem print_eq_of_sameAs {n m : Node} (h : n.sameAs m = true) (tab indent : Int) :
    n.print tab indent = m.print tab indent := by
  rw [print, print, ← items_unplaced, unplaced_eq_of_sameAs n m h, items_unplaced]

end Cmm.Node

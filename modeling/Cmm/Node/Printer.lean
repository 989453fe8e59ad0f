import Cmm.Node.Outline

/-!
The source text of a tree.

A binary expression stands in parentheses of its own, and `==` puts another pair around its right
operand.  An assignment that is an operand, and a unary expression that is the operand of a unary
one, are put in parentheses; so `-(-x)` does not turn into a decrement.  Each nested block is
indented by one tab width more.  A function with empty slots is printed with placeholders; any
other node that does not belong where it stands ends the text.
-/

namespace Cmm.Node

open Layout

private def fault (role : Role) (n : Node) : List Item := [.fault (.misplaced role n.label)]

private def lacks (n : Node) (slot : String) : List Item := [.fault (.missingSlot n.label slot)]

def commaSeparated : List (List Item) → List Item
  | [] => []
  | [item] => item
  | item :: rest => item ++ .text ", " :: commaSeparated rest

/-! ## Expressions -/

def isAssign : Node → Bool
  | .assign .. => true
  | _ => false

def isUnary : Node → Bool
  | .unary .. => true
  | _ => false

def inParens (parens : Bool) (items : List Item) : List Item :=
  if parens then .text "(" :: items ++ [.text ")"] else items

mutual

def expression (parens : Bool) : Node → List Item
  | .number value _ => inParens parens [.text (toString value)]
  | .string raw _ => inParens parens [.text raw]
  | .truth value _ => inParens parens [.text (if value then "true" else "false")]
  | .name text _ => inParens parens [.text text]
  | .dot loc id _ =>
    inParens parens (expression false loc ++ .text "." :: expression false id)
  | .assign lhs exp _ =>
    inParens parens (expression false lhs ++ .text " = " :: expression false exp)
  | .call id args _ =>
    inParens parens (expression false id ++ .text "(" :: arguments args ++ [.text ")"])
  | .unary op operand _ =>
    inParens parens (.text ((op.map UnaryOp.spelling).getD "") ::
      expression (operand.isAssign || operand.isUnary) operand)
  | .binary op left right _ =>
    let spelling := (op.map BinaryOp.spelling).getD ""
    inParens parens (.text "(" :: expression left.isAssign left ++
      .text (" " ++ spelling ++ " ") ::
      expression (op = some .equals || right.isAssign) right ++ [.text ")"])
  | n => inParens parens (fault .expression n)

def arguments : Node → List Item
  | .absent => []
  | .list .expressions items _ => commaSeparated (expressions items)
  | n => lacks n "exps"

def expressions : List Node → List (List Item)
  | [] => []
  | item :: rest => expression false item :: expressions rest

end

/-! ## Types and formal parameters -/

def typeItems : Node → List Item
  | .primitive type _ => [.text type.spelling]
  | .structType id _ => .text "struct " :: expression false id
  | n => fault .type n

def formalItems : Node → List Item
  | .formal type id _ | .variableDecl type id _ _ | .functionDecl type id _ _ _ =>
    typeItems type ++ .text " " :: expression false id
  | n => lacks n "type"

def formalsItems : Node → List Item
  | .list .formals items _ =>
    .text "(" :: commaSeparated (items.map formalItems) ++ [.text ")"]
  | n => .text "(" :: lacks n "formals"

/-! ## Declarations and statements -/

def inBraces (indent : Int) (items : List Item) : List Item :=
  .text "\x7b\n" :: items ++ [.indent indent, .text "\x7d"]

def header (keyword : String) (condition : Node) : List Item :=
  .text (keyword ++ " (") :: expression false condition ++ [.text ") "]

mutual

def declarationList (tab indent : Int) : Node → List Item
  | .absent => []
  | .list .declarations items _ => declarations tab indent items
  | n => lacks n "decls"

def declarations (tab indent : Int) : List Node → List Item
  | [] => []
  | item :: rest => declaration tab indent item ++ declarations tab indent rest

def declaration (tab indent : Int) : Node → List Item
  | .variableDecl type id _ _ =>
    .indent indent :: typeItems type ++ .text " " :: expression false id ++ [.text ";\n"]
  | .functionDecl type id formals body _ =>
    .indent indent :: (if type.isAbsent then [.text "<missing type>"] else typeItems type) ++
      .text " " :: (if id.isAbsent then [.text "<missing id>"] else expression false id) ++
      (if formals.isAbsent then [.text "(<missing formals>)"] else formalsItems formals) ++
      .text " " :: functionBodyItems tab indent body ++ [.text "\n"]
  | .structDecl id decls _ =>
    .indent indent :: .text "struct " :: expression false id ++
      .text " " :: inBraces indent (declarationList tab (indent + tab) decls) ++ [.text ";\n"]
  | n => .indent indent :: fault .declaration n

def functionBodyItems (tab indent : Int) : Node → List Item
  | .absent => [.text "<missing body>\n"]
  | .functionBody decls stmts _ | .ifThen _ decls stmts _ | .whileLoop _ decls stmts _
  | .repeatLoop _ decls stmts _ =>
    inBraces indent
      (declarationList tab (indent + tab) decls ++ statementList tab (indent + tab) stmts) ++
      [.text "\n"]
  | n@(.structDecl ..) | n@(.program ..) => lacks n "stmt_list"
  | n => lacks n "decl_list"

def statementList (tab indent : Int) : Node → List Item
  | .absent => []
  | .list .statements items _ => statements tab indent items
  | n => lacks n "stmts"

def statements (tab indent : Int) : List Node → List Item
  | [] => []
  | item :: rest => statement tab indent item ++ statements tab indent rest

def statement (tab indent : Int) : Node → List Item
  | .assignment exp _ | .callStatement exp _ =>
    .indent indent :: expression false exp ++ [.text ";\n"]
  | .increment exp _ => .indent indent :: expression false exp ++ [.text "++;\n"]
  | .decrement exp _ => .indent indent :: expression false exp ++ [.text "--;\n"]
  | .read exp _ => .indent indent :: .text "cin >> " :: expression false exp ++ [.text ";\n"]
  | .write exp _ => .indent indent :: .text "cout << " :: expression false exp ++ [.text ";\n"]
  | .ifThen exp decls stmts _ =>
    .indent indent :: header "if" exp ++ inBraces indent
      (declarationList tab (indent + tab) decls ++ statementList tab (indent + tab) stmts) ++
      [.text "\n"]
  | .ifElse exp thenDecls thenStmts elseDecls elseStmts _ =>
    .indent indent :: header "if" exp ++ inBraces indent
      (declarationList tab (indent + tab) thenDecls ++
        statementList tab (indent + tab) thenStmts) ++
      .text " else " :: inBraces indent
      (declarationList tab (indent + tab) elseDecls ++
        statementList tab (indent + tab) elseStmts) ++
      [.text "\n"]
  | .whileLoop exp decls stmts _ =>
    .indent indent :: header "while" exp ++ inBraces indent
      (declarationList tab (indent + tab) decls ++ statementList tab (indent + tab) stmts) ++
      [.text "\n"]
  | .repeatLoop exp decls stmts _ =>
    .indent indent :: header "repeat" exp ++ inBraces indent
      (declarationList tab (indent + tab) decls ++ statementList tab (indent + tab) stmts) ++
      [.text "\n"]
  | .returnStatement exp _ =>
    .indent indent :: (if exp.isAbsent then [.text "return;\n"]
      else .text "return " :: expression false exp ++ [.text ";\n"])
  | n => .indent indent :: fault .statement n

end

/-! ## Whole trees -/

def items (tab indent : Int) : Node → List Item
  | .program decls _ => declarationList tab indent decls
  | n@(.list .declarations ..) => declarationList tab indent n
  | n@(.variableDecl ..) | n@(.functionDecl ..) | n@(.structDecl ..) => declaration tab indent n
  | n@(.list .formals ..) => formalsItems n
  | n@(.formal ..) => formalItems n
  | n@(.functionBody ..) => functionBodyItems tab indent n
  | n@(.list .statements ..) => statementList tab indent n
  | n@(.list .expressions ..) => arguments n
  | n@(.primitive ..) | n@(.structType ..) => typeItems n
  | n@(.base .statement _) | n@(.assignment ..) | n@(.increment ..) | n@(.decrement ..)
  | n@(.read ..) | n@(.write ..) | n@(.ifThen ..) | n@(.ifElse ..) | n@(.whileLoop ..)
  | n@(.repeatLoop ..) | n@(.callStatement ..) | n@(.returnStatement ..) =>
    statement tab indent n
  | n@(.base .expression _) | n@(.number ..) | n@(.string ..) | n@(.truth ..) | n@(.name ..)
  | n@(.dot ..) | n@(.assign ..) | n@(.call ..) | n@(.unary ..) | n@(.binary ..) =>
    expression false n
  | n@(.absent) | n@(.base .node _) | n@(.base .type _) | n@(.base .declaration _) =>
    fault .root n

def print (tab indent : Int) (n : Node) : Printed := Layout.write (n.items tab indent)

/-- The text of trees one after another, up to the first fault, as far as there is room. -/
def printAll (room tab indent : Int) (trees : List Node) : Printed :=
  Layout.writeHeld room (trees.flatMap (items tab indent))

theorem printAll_singleton {room tab indent : Int} {n : Node}
    (h : (printAll room tab indent [n]).fault = none) :
    printAll room tab indent [n] = n.print tab indent := by
  simp only [printAll, List.flatMap_cons, List.flatMap_nil, List.append_nil] at h ⊢
  exact Layout.writeHeld_of_fault_eq_none h

/-! ## Printing without a tab width -/

def opensBlock : Node → Bool
  | .structDecl .. | .functionBody .. | .ifThen .. | .ifElse .. | .whileLoop .. | .repeatLoop .. =>
    true
  | _ => false

/-- Whether a tree holds no block, so that its text is the same for every tab width. -/
def isFlat (n : Node) : Bool := n.nodeRows.all fun row => !row.node.opensBlock

def printWith (room : Int) (tab : Option Int) (n : Node) : Printed :=
  match tab with
  | some width => printAll room width 0 [n]
  | none => if n.isFlat then printAll room 0 0 [n] else ⟨"", some .noTabWidth⟩

end Cmm.Node

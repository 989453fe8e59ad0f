import Cmm.Position
import Cmm.Syntax.Operator

/-!
Trees whose slots are not typed.

A node has a class and named slots, and any node, or none, may stand in any slot.  `absent` is the
empty slot.  Trees of this kind come from reading a program, where every slot holds what belongs
there, and are also built by hand.
-/

namespace Cmm

inductive BaseClass where
  | node
  | type
  | expression
  | declaration
  | statement
  deriving DecidableEq, Repr

inductive ListClass where
  | declarations
  | formals
  | statements
  | expressions
  deriving DecidableEq, Repr

/-- A tree.  An operator is missing where only the class that groups the operators is known; the
size of a variable is `-1` where it is not a struct. -/
inductive Node where
  | absent
  | base (cls : BaseClass) (position : Position)
  | primitive (type : Primitive) (position : Position)
  | structType (id : Node) (position : Position)
  | number (value : Int) (position : Position)
  | string (raw : String) (position : Position)
  | truth (value : Bool) (position : Position)
  | name (text : String) (position : Position)
  | dot (loc id : Node) (position : Position)
  | assign (lhs exp : Node) (position : Position)
  | call (id args : Node) (position : Position)
  | unary (op : Option UnaryOp) (operand : Node) (position : Position)
  | binary (op : Option BinaryOp) (left right : Node) (position : Position)
  | list (cls : ListClass) (items : List Node) (position : Position)
  | variableDecl (type id : Node) (size : Int) (position : Position)
  | formal (type id : Node) (position : Position)
  | functionDecl (type id formals body : Node) (position : Position)
  | functionBody (decls stmts : Node) (position : Position)
  | structDecl (id decls : Node) (position : Position)
  | assignment (assign : Node) (position : Position)
  | increment (exp : Node) (position : Position)
  | decrement (exp : Node) (position : Position)
  | read (exp : Node) (position : Position)
  | write (exp : Node) (position : Position)
  | ifThen (exp decls stmts : Node) (position : Position)
  | ifElse (exp thenDecls thenStmts elseDecls elseStmts : Node) (position : Position)
  | whileLoop (exp decls stmts : Node) (position : Position)
  | repeatLoop (exp decls stmts : Node) (position : Position)
  | callStatement (call : Node) (position : Position)
  | returnStatement (exp : Node) (position : Position)
  | program (decls : Node) (position : Position)
  deriving Repr

def notStruct : Int := -1

/-! ## Names of classes -/

def BaseClass.label : BaseClass → String
  | .node => "ASTNode"
  | .type => "TypeNode"
  | .expression => "Expression"
  | .declaration => "Declaration"
  | .statement => "Statement"

def ListClass.label : ListClass → String
  | .declarations => "DeclList"
  | .formals => "FormalsList"
  | .statements => "StmtList"
  | .expressions => "ExpList"

def ListClass.slot : ListClass → String
  | .declarations => "decls"
  | .formals => "formals"
  | .statements => "stmts"
  | .expressions => "exps"

def Primitive.label : Primitive → String
  | .int => "IntType"
  | .bool => "BoolType"
  | .void => "VoidType"

def UnaryOp.label : UnaryOp → String
  | .minus => "UnaryMinus"
  | .not => "Not"

def BinaryOp.label : BinaryOp → String
  | .plus => "Plus"
  | .minus => "Minus"
  | .times => "Times"
  | .divide => "Divide"
  | .and => "And"
  | .or => "Or"
  | .equals => "Equals"
  | .notEquals => "NotEquals"
  | .less => "Less"
  | .greater => "Greater"
  | .lessEq => "LessEq"
  | .greaterEq => "GreaterEq"

namespace Node

def label : Node → String
  | .absent => "NoneType"
  | .base cls _ => cls.label
  | .primitive type _ => type.label
  | .structType .. => "StructType"
  | .number .. => "IntLiteral"
  | .string .. => "StringLiteral"
  | .truth true _ => "TrueLiteral"
  | .truth false _ => "FalseLiteral"
  | .name .. => "Identifier"
  | .dot .. => "DotAccess"
  | .assign .. => "AssignExp"
  | .call .. => "CallExp"
  | .unary none .. => "UnaryExp"
  | .unary (some op) .. => op.label
  | .binary none .. => "BinaryExp"
  | .binary (some op) .. => op.label
  | .list cls .. => cls.label
  | .variableDecl .. => "VarDecl"
  | .formal .. => "FormalDecl"
  | .functionDecl .. => "FnDecl"
  | .functionBody .. => "FnBody"
  | .structDecl .. => "StructDecl"
  | .assignment .. => "AssignStmt"
  | .increment .. => "PostIncStmt"
  | .decrement .. => "PostDecStmt"
  | .read .. => "ReadStmt"
  | .write .. => "WriteStmt"
  | .ifThen .. => "IfStmt"
  | .ifElse .. => "IfElseStmt"
  | .whileLoop .. => "WhileStmt"
  | .repeatLoop .. => "RepeatStmt"
  | .callStatement .. => "CallStmt"
  | .returnStatement .. => "ReturnStmt"
  | .program .. => "Program"

def isAbsent : Node → Bool
  | .absent => true
  | _ => false

def position? : Node → Option Position
  | .absent => none
  | .base _ p | .primitive _ p | .structType _ p | .number _ p | .string _ p | .truth _ p
  | .name _ p | .dot _ _ p | .assign _ _ p | .call _ _ p | .unary _ _ p | .binary _ _ _ p
  | .list _ _ p | .variableDecl _ _ _ p | .formal _ _ p | .functionDecl _ _ _ _ p | .functionBody _ _ p
  | .structDecl _ _ p | .assignment _ p | .increment _ p | .decrement _ p | .read _ p | .write _ p
  | .ifThen _ _ _ p | .ifElse _ _ _ _ _ p | .whileLoop _ _ _ p | .repeatLoop _ _ _ p
  | .callStatement _ p | .returnStatement _ p | .program _ p => some p

/-- The slots of a node in order, with their names; the elements of a list are numbered. -/
def slots : Node → List (String × Node)
  | .absent | .base .. | .primitive .. | .number .. | .string .. | .truth .. | .name .. => []
  | .structType id _ => [("id", id)]
  | .dot loc id _ => [("loc", loc), ("id", id)]
  | .assign lhs exp _ => [("lhs", lhs), ("exp", exp)]
  | .call id args _ => [("id", id), ("exp_list", args)]
  | .unary _ operand _ => [("operand", operand)]
  | .binary _ left right _ => [("left", left), ("right", right)]
  | .list cls items _ => items.zipIdx.map fun (item, i) => (s!"{cls.slot}[{i}]", item)
  | .variableDecl type id _ _ => [("type", type), ("id", id)]
  | .formal type id _ => [("type", type), ("id", id)]
  | .functionDecl type id formals body _ =>
    [("type", type), ("id", id), ("formals_list", formals), ("body", body)]
  | .functionBody decls stmts _ => [("decl_list", decls), ("stmt_list", stmts)]
  | .structDecl id decls _ => [("id", id), ("decl_list", decls)]
  | .assignment exp _ => [("assign", exp)]
  | .increment exp _ | .decrement exp _ | .read exp _ | .write exp _
  | .returnStatement exp _ => [("exp", exp)]
  | .ifThen exp decls stmts _ | .whileLoop exp decls stmts _ | .repeatLoop exp decls stmts _ =>
    [("exp", exp), ("decl_list", decls), ("stmt_list", stmts)]
  | .ifElse exp thenDecls thenStmts elseDecls elseStmts _ =>
    [("exp", exp), ("then_decl_list", thenDecls), ("then_stmt_list", thenStmts),
      ("else_decl_list", elseDecls), ("else_stmt_list", elseStmts)]
  | .callStatement exp _ => [("call", exp)]
  | .program decls _ => [("decl_list", decls)]

def children (n : Node) : List Node :=
  (n.slots.map Prod.snd).filter fun child => !child.isAbsent

theorem sizeOf_lt_of_mem_slots {n child : Node} {slot : String} (h : (slot, child) ∈ n.slots) :
    sizeOf child < sizeOf n := by
  cases n with
  | list cls items p =>
    simp only [slots, List.mem_map, Prod.mk.injEq, Prod.exists] at h
    obtain ⟨item, i, hi, _, rfl⟩ := h
    have hmem : item ∈ items := by
      have := List.mem_zipIdx hi
      simp_all
    have := List.sizeOf_lt_of_mem hmem
    simp only [list.sizeOf_spec]
    omega
  | absent | base | primitive | number | string | truth | name => simp [slots] at h
  | _ =>
    simp only [slots, List.mem_cons, List.not_mem_nil, Prod.mk.injEq, or_false] at h
    grind

inductive Payload where
  | nothing
  | number (value : Int)
  | text (value : String)
  deriving DecidableEq, Repr

def payload : Node → Payload
  | .number value _ => .number value
  | .string raw _ => .text raw
  | .name text _ => .text text
  | .unary op _ _ => .text ((op.map UnaryOp.spelling).getD "")
  | .binary op _ _ _ => .text ((op.map BinaryOp.spelling).getD "")
  | .variableDecl _ _ size _ => .number size
  | _ => .nothing

/-! ## Expressions -/

def isExpression : Node → Bool
  | .base .expression _ | .number .. | .string .. | .truth .. | .name .. | .dot .. | .assign ..
  | .call .. | .unary .. | .binary .. => true
  | _ => false

mutual

/-- The number of nodes on the longest chain of nested expressions from an expression down, the
arguments of a call included; zero for what is no expression. -/
def height : Node → Nat
  | .base .expression _ | .number .. | .string .. | .truth .. | .name .. => 1
  | .dot a b _ | .assign a b _ | .call a b _ | .binary _ a b _ => 1 + max a.height b.height
  | .unary _ operand _ => 1 + operand.height
  | .list .expressions items _ => greatestHeight items
  | _ => 0

def greatestHeight : List Node → Nat
  | [] => 0
  | item :: rest => max item.height (greatestHeight rest)

end

end Node

end Cmm

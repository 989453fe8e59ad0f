import Cmm.Node.Basic
import Cmm.Proofs.Token.Spelling

/-!
# Well-formed trees

Which trees a program can have: every slot holds what belongs there, names, numbers and strings can
be spelled, and a variable has size zero exactly if it is a struct.  Positions are free.
-/

namespace Cmm.Node

inductive IsName : Node → Prop
  | name {text : String} {p : Position} (h : Spelling text.toList (.name text)) :
    IsName (.name text p)

inductive IsLocation : Node → Prop
  | name {n : Node} (h : n.IsName) : IsLocation n
  | dot {loc id : Node} {p : Position} (hloc : loc.IsLocation) (hid : id.IsName) :
    IsLocation (.dot loc id p)

inductive IsExpression : Node → Prop
  | number {value : Int} {p : Position} (hlow : 0 ≤ value) (hhigh : value ≤ 2147483647) :
    IsExpression (.number value p)
  | string {raw : String} {p : Position} (h : Spelling raw.toList (.string raw)) :
    IsExpression (.string raw p)
  | truth (value : Bool) (p : Position) : IsExpression (.truth value p)
  | location {n : Node} (h : n.IsLocation) : IsExpression n
  | assign {lhs exp : Node} {p : Position} (hlhs : lhs.IsLocation) (hexp : exp.IsExpression) :
    IsExpression (.assign lhs exp p)
  | call {id : Node} {args : List Node} {p q : Position} (hid : id.IsName)
      (hargs : ∀ n ∈ args, n.IsExpression) : IsExpression (.call id (.list .expressions args q) p)
  | unary {operand : Node} {p : Position} (op : UnaryOp) (h : operand.IsExpression) :
    IsExpression (.unary (some op) operand p)
  | binary {left right : Node} {p : Position} (op : BinaryOp) (hleft : left.IsExpression)
      (hright : right.IsExpression) : IsExpression (.binary (some op) left right p)

/-! ## Declarations and statements -/

inductive IsVariable : Node → Prop
  | primitive {id : Node} {p q : Position} (type : Primitive) (hid : id.IsName) :
    IsVariable (.variableDecl (.primitive type q) id (-1) p)
  | struct {name id : Node} {p q : Position} (hname : name.IsName) (hid : id.IsName) :
    IsVariable (.variableDecl (.structType name q) id 0 p)

inductive IsVariables : Node → Prop
  | list {items : List Node} {p : Position} (h : ∀ n ∈ items, n.IsVariable) :
    IsVariables (.list .declarations items p)

inductive IsFormal : Node → Prop
  | formal {id : Node} {p q : Position} (type : Primitive) (hid : id.IsName) :
    IsFormal (.formal (.primitive type q) id p)

inductive IsStatement : Node → Prop
  | assignment {lhs exp : Node} {p q : Position} (hlhs : lhs.IsLocation)
      (hexp : exp.IsExpression) : IsStatement (.assignment (.assign lhs exp q) p)
  | increment {loc : Node} {p : Position} (h : loc.IsLocation) : IsStatement (.increment loc p)
  | decrement {loc : Node} {p : Position} (h : loc.IsLocation) : IsStatement (.decrement loc p)
  | read {loc : Node} {p : Position} (h : loc.IsLocation) : IsStatement (.read loc p)
  | write {exp : Node} {p : Position} (h : exp.IsExpression) : IsStatement (.write exp p)
  | ifThen {exp decls : Node} {stmts : List Node} {p q : Position} (hexp : exp.IsExpression)
      (hdecls : decls.IsVariables) (hstmts : ∀ n ∈ stmts, n.IsStatement) :
    IsStatement (.ifThen exp decls (.list .statements stmts q) p)
  | ifElse {exp decls decls' : Node} {stmts stmts' : List Node} {p q q' : Position}
      (hexp : exp.IsExpression) (hdecls : decls.IsVariables) (hstmts : ∀ n ∈ stmts, n.IsStatement)
      (hdecls' : decls'.IsVariables) (hstmts' : ∀ n ∈ stmts', n.IsStatement) :
    IsStatement (.ifElse exp decls (.list .statements stmts q) decls'
      (.list .statements stmts' q') p)
  | whileLoop {exp decls : Node} {stmts : List Node} {p q : Position} (hexp : exp.IsExpression)
      (hdecls : decls.IsVariables) (hstmts : ∀ n ∈ stmts, n.IsStatement) :
    IsStatement (.whileLoop exp decls (.list .statements stmts q) p)
  | repeatLoop {exp decls : Node} {stmts : List Node} {p q : Position} (hexp : exp.IsExpression)
      (hdecls : decls.IsVariables) (hstmts : ∀ n ∈ stmts, n.IsStatement) :
    IsStatement (.repeatLoop exp decls (.list .statements stmts q) p)
  | callStatement {id : Node} {args : List Node} {p q r : Position} (hid : id.IsName)
      (hargs : ∀ n ∈ args, n.IsExpression) :
    IsStatement (.callStatement (.call id (.list .expressions args r) q) p)
  | returnNothing (p : Position) : IsStatement (.returnStatement .absent p)
  | returnValue {exp : Node} {p : Position} (h : exp.IsExpression) :
    IsStatement (.returnStatement exp p)

inductive IsDeclaration : Node → Prop
  | variable {n : Node} (h : n.IsVariable) : IsDeclaration n
  | function {id decls : Node} {formals stmts : List Node} {p q r s t : Position}
      (type : Primitive) (hid : id.IsName) (hformals : ∀ n ∈ formals, n.IsFormal)
      (hdecls : decls.IsVariables) (hstmts : ∀ n ∈ stmts, n.IsStatement) :
    IsDeclaration (.functionDecl (.primitive type q) id (.list .formals formals r)
      (.functionBody decls (.list .statements stmts t) s) p)
  | struct {id : Node} {fields : List Node} {p q : Position} (hid : id.IsName)
      (hne : fields ≠ []) (hfields : ∀ n ∈ fields, n.IsVariable) :
    IsDeclaration (.structDecl id (.list .declarations fields q) p)

/-- A tree that a program can have. -/
inductive IsProgram : Node → Prop
  | program {decls : List Node} {p q : Position} (h : ∀ n ∈ decls, n.IsDeclaration) :
    IsProgram (.program (.list .declarations decls q) p)

end Cmm.Node

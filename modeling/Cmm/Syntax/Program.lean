import Cmm.Syntax.Expr

/-!
Declarations, statements and programs as they are read from tokens.

A declaration is placed at its first token, which is also where its type stands.  The lists of a
block are placed at the tokens where they begin, whether they hold anything or not.
-/

namespace Cmm

/-! ## Variables -/

inductive VariableType where
  | primitive (type : Primitive)
  | struct (id : Name)
  deriving DecidableEq, Repr

structure VariableDecl where
  type : VariableType
  id : Name
  position : Position
  deriving DecidableEq, Repr

structure VariableDecls where
  items : List VariableDecl
  position : Position
  deriving DecidableEq, Repr

/-! ## Statements -/

mutual

inductive Stmt where
  | assign (assignment : Assignment) (position : Position)
  | increment (loc : Loc) (position : Position)
  | decrement (loc : Loc) (position : Position)
  | read (loc : Loc) (position : Position)
  | write (exp : Expr) (position : Position)
  | ifThen (condition : Expr) (block : Block) (position : Position)
  | ifElse (condition : Expr) (thenBlock elseBlock : Block) (position : Position)
  | whileLoop (condition : Expr) (block : Block) (position : Position)
  | repeatLoop (condition : Expr) (block : Block) (position : Position)
  | call (call : Call) (position : Position)
  | returnValue (value : Option Expr) (position : Position)
  deriving Repr

/-- What stands between braces: declarations, then statements, which have the position of the
first token behind the declarations. -/
inductive Block where
  | mk (decls : VariableDecls) (stmts : List Stmt) (stmtsPosition : Position)
  deriving Repr

end

/-! ## Declarations -/

structure Formal where
  type : Primitive
  id : Name
  position : Position
  deriving DecidableEq, Repr

structure Formals where
  items : List Formal
  position : Position
  deriving DecidableEq, Repr

structure Body where
  block : Block
  position : Position
  deriving Repr

structure FunctionDecl where
  type : Primitive
  id : Name
  formals : Formals
  body : Body
  position : Position
  deriving Repr

/-- A struct; it has at least one field. -/
structure StructDecl where
  id : Name
  first : VariableDecl
  more : List VariableDecl
  fieldsPosition : Position
  position : Position
  deriving Repr

inductive Decl where
  | variableDecl (decl : VariableDecl)
  | functionDecl (decl : FunctionDecl)
  | structDecl (decl : StructDecl)
  deriving Repr

structure Program where
  decls : List Decl
  position : Position
  deriving Repr

/-! ## Trees -/

/-- The size that a variable has before its layout is known. -/
def VariableType.size : VariableType → Int
  | .primitive _ => notStruct
  | .struct _ => 0

def VariableType.toNode (type : VariableType) (p : Position) : Node :=
  match type with
  | .primitive t => .primitive t p
  | .struct id => .structType id.toNode p

def VariableDecl.toNode (v : VariableDecl) : Node :=
  .variableDecl (v.type.toNode v.position) v.id.toNode v.type.size v.position

def VariableDecls.toNode (vs : VariableDecls) : Node :=
  .list .declarations (vs.items.map VariableDecl.toNode) vs.position

mutual

def Stmt.toNode : Stmt → Node
  | .assign a p => .assignment a.toNode p
  | .increment loc p => .increment loc.toNode p
  | .decrement loc p => .decrement loc.toNode p
  | .read loc p => .read loc.toNode p
  | .write exp p => .write exp.toNode p
  | .ifThen condition block p => .ifThen condition.toNode block.declsNode block.stmtsNode p
  | .ifElse condition thenBlock elseBlock p =>
    .ifElse condition.toNode thenBlock.declsNode thenBlock.stmtsNode elseBlock.declsNode
      elseBlock.stmtsNode p
  | .whileLoop condition block p => .whileLoop condition.toNode block.declsNode block.stmtsNode p
  | .repeatLoop condition block p => .repeatLoop condition.toNode block.declsNode block.stmtsNode p
  | .call c p => .callStatement c.toNode p
  | .returnValue none p => .returnStatement .absent p
  | .returnValue (some value) p => .returnStatement value.toNode p

def Stmt.toNodes : List Stmt → List Node
  | [] => []
  | s :: rest => s.toNode :: Stmt.toNodes rest

def Block.declsNode : Block → Node
  | .mk decls _ _ => decls.toNode

def Block.stmtsNode : Block → Node
  | .mk _ stmts p => .list .statements (Stmt.toNodes stmts) p

end

theorem Stmt.toNodes_eq_map (ss : List Stmt) : toNodes ss = ss.map toNode := by
  induction ss with
  | nil => rfl
  | cons s rest ih => rw [toNodes, ih, List.map_cons]

def Formal.toNode (f : Formal) : Node :=
  .formal (.primitive f.type f.position) f.id.toNode f.position

def Formals.toNode (fs : Formals) : Node :=
  .list .formals (fs.items.map Formal.toNode) fs.position

def Body.toNode (b : Body) : Node :=
  .functionBody b.block.declsNode b.block.stmtsNode b.position

def FunctionDecl.toNode (f : FunctionDecl) : Node :=
  .functionDecl (.primitive f.type f.position) f.id.toNode f.formals.toNode f.body.toNode f.position

def StructDecl.fields (s : StructDecl) : VariableDecls := ⟨s.first :: s.more, s.fieldsPosition⟩

def StructDecl.toNode (s : StructDecl) : Node :=
  .structDecl s.id.toNode s.fields.toNode s.position

def Decl.toNode : Decl → Node
  | .variableDecl v => v.toNode
  | .functionDecl f => f.toNode
  | .structDecl s => s.toNode

def Program.toNode (p : Program) : Node :=
  .program (.list .declarations (p.decls.map Decl.toNode) p.position) p.position

end Cmm

import Cmm.Proofs.Expr.Printed
import Cmm.Syntax.Program

/-!
# Programs as they are written

Outside of expressions there is only one way to write a program, up to blanks: the parts of a
program in order, with their reserved words and symbols.  What stands in a program, names,
expressions and blocks, is listed as its sites, each with the number of blocks around it.
-/

namespace Cmm

def separated : List (List Lexeme) → List Lexeme
  | [] => []
  | [ls] => ls
  | ls :: rest => ls ++ .ofSymbol .comma :: separated rest

/-- What stands at a place of a program: a name that is declared or names a type, an expression
that is no part of another one, or a block. -/
inductive Site where
  | name (id : Name)
  | expression (e : Expr)
  | block

/-- Every site is as `P` says, for the number of blocks around it. -/
def AllSites (P : Nat → Site → Prop) (sites : List (Nat × Site)) : Prop :=
  ∀ x ∈ sites, P x.1 x.2

section AllSites

variable {P Q : Nat → Site → Prop} {sites sites' : List (Nat × Site)} {depth : Nat}

theorem AllSites.imp (h : AllSites P sites) (himp : ∀ depth site, P depth site → Q depth site) :
    AllSites Q sites :=
  fun x hx => himp x.1 x.2 (h x hx)

@[simp] theorem allSites_nil : AllSites P [] := nofun

@[simp] theorem allSites_cons {site : Site} :
    AllSites P ((depth, site) :: sites) ↔ P depth site ∧ AllSites P sites :=
  List.forall_mem_cons

@[simp] theorem allSites_append :
    AllSites P (sites ++ sites') ↔ AllSites P sites ∧ AllSites P sites' :=
  List.forall_mem_append

theorem allSites_names {ids : List Name} :
    AllSites P (ids.map fun id => (depth, .name id)) ↔ ∀ id ∈ ids, P depth (.name id) :=
  List.forall_mem_map

end AllSites

/-! ## Variables -/

def VariableType.lexemes : VariableType → List Lexeme
  | .primitive type => [.ofKeyword type.keyword]
  | .struct id => [.ofKeyword .struct, .name id.text]

def VariableType.names : VariableType → List Name
  | .primitive _ => []
  | .struct id => [id]

namespace VariableDecl

def lexemes (v : VariableDecl) : List Lexeme :=
  v.type.lexemes ++ [.name v.id.text, .ofSymbol .semicolon]

def names (v : VariableDecl) : List Name := v.type.names ++ [v.id]

end VariableDecl

/-! ## Statements -/

def Expr.conditionLexemes (word : Keyword) (e : Expr) : List Lexeme :=
  .ofKeyword word :: .ofSymbol .leftParen :: (e.printed.lexemes ++ [.ofSymbol .rightParen])

mutual

def Stmt.lexemes : Stmt → List Lexeme
  | .assign a _ => a.toExpr.printed.lexemes ++ [.ofSymbol .semicolon]
  | .increment loc _ => loc.lexemes ++ [.ofSymbol .plusPlus, .ofSymbol .semicolon]
  | .decrement loc _ => loc.lexemes ++ [.ofSymbol .minusMinus, .ofSymbol .semicolon]
  | .read loc _ =>
    .ofKeyword .cin :: .ofSymbol .read :: (loc.lexemes ++ [.ofSymbol .semicolon])
  | .write exp _ =>
    .ofKeyword .cout :: .ofSymbol .write :: (exp.printed.lexemes ++ [.ofSymbol .semicolon])
  | .ifThen condition block _ => condition.conditionLexemes .ifWord ++ block.lexemes
  | .ifElse condition thenBlock elseBlock _ =>
    condition.conditionLexemes .ifWord ++
      (thenBlock.lexemes ++ .ofKeyword .elseWord :: elseBlock.lexemes)
  | .whileLoop condition block _ => condition.conditionLexemes .whileWord ++ block.lexemes
  | .repeatLoop condition block _ => condition.conditionLexemes .repeatWord ++ block.lexemes
  | .call c _ => c.toExpr.printed.lexemes ++ [.ofSymbol .semicolon]
  | .returnValue none _ => [.ofKeyword .returnWord, .ofSymbol .semicolon]
  | .returnValue (some value) _ =>
    .ofKeyword .returnWord :: (value.printed.lexemes ++ [.ofSymbol .semicolon])

def Stmt.allLexemes : List Stmt → List Lexeme
  | [] => []
  | s :: rest => s.lexemes ++ Stmt.allLexemes rest

def Block.lexemes : Block → List Lexeme
  | .mk decls stmts _ =>
    .ofSymbol .leftCurly :: (decls.items.flatMap VariableDecl.lexemes ++
      (Stmt.allLexemes stmts ++ [.ofSymbol .rightCurly]))

end

mutual

def Stmt.sites (depth : Nat) : Stmt → List (Nat × Site)
  | .assign a _ => [(depth, .expression a.toExpr)]
  | .increment loc _ | .decrement loc _ | .read loc _ => [(depth, .expression (.loc loc))]
  | .write exp _ => [(depth, .expression exp)]
  | .ifThen condition block _ | .whileLoop condition block _ | .repeatLoop condition block _ =>
    (depth, .expression condition) :: block.sites depth
  | .ifElse condition thenBlock elseBlock _ =>
    (depth, .expression condition) :: (thenBlock.sites depth ++ elseBlock.sites depth)
  | .call c _ => [(depth, .expression c.toExpr)]
  | .returnValue none _ => []
  | .returnValue (some value) _ => [(depth, .expression value)]

def Stmt.allSites (depth : Nat) : List Stmt → List (Nat × Site)
  | [] => []
  | s :: rest => s.sites depth ++ Stmt.allSites depth rest

def Block.sites (depth : Nat) : Block → List (Nat × Site)
  | .mk decls stmts _ =>
    (depth + 1, .block) ::
      ((decls.items.flatMap VariableDecl.names).map fun id => (depth + 1, .name id)) ++
        Stmt.allSites (depth + 1) stmts

end

/-! ## Declarations -/

def Formal.lexemes (f : Formal) : List Lexeme := [.ofKeyword f.type.keyword, .name f.id.text]

def Formals.lexemes (fs : Formals) : List Lexeme :=
  .ofSymbol .leftParen :: (separated (fs.items.map Formal.lexemes) ++ [.ofSymbol .rightParen])

namespace Decl

def lexemes : Decl → List Lexeme
  | .variableDecl v => v.lexemes
  | .functionDecl f =>
    .ofKeyword f.type.keyword :: .name f.id.text :: (f.formals.lexemes ++ f.body.block.lexemes)
  | .structDecl s =>
    .ofKeyword .struct :: .name s.id.text :: .ofSymbol .leftCurly ::
      ((s.first :: s.more).flatMap VariableDecl.lexemes ++
        [.ofSymbol .rightCurly, .ofSymbol .semicolon])

theorem exists_lexemes_eq_cons (d : Decl) : ∃ l more, d.lexemes = l :: more := by
  cases d with
  | variableDecl v =>
      rw [lexemes, VariableDecl.lexemes]
      cases v.type <;> exact ⟨_, _, rfl⟩
  | functionDecl f => exact ⟨_, _, rfl⟩
  | structDecl s => exact ⟨_, _, rfl⟩

def names : Decl → List Name
  | .variableDecl v => v.names
  | .functionDecl f => f.id :: f.formals.items.map Formal.id
  | .structDecl s => s.id :: (s.first :: s.more).flatMap VariableDecl.names

def sites (d : Decl) : List (Nat × Site) :=
  (d.names.map fun id => (0, .name id)) ++
    match d with
    | .functionDecl f => f.body.block.sites 0
    | .variableDecl _ | .structDecl _ => []

end Decl

def Program.lexemes (p : Program) : List Lexeme := p.decls.flatMap Decl.lexemes

def Program.sites (p : Program) : List (Nat × Site) := p.decls.flatMap Decl.sites

end Cmm

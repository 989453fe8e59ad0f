import Cmm.Syntax.Operator

/-!
# The grammar

Which lists of token kinds are programs, by the ambiguous grammar that says nothing of precedence
or associativity.  There is one constructor for each alternative of each rule.
-/

namespace Cmm

/-- The left sides of the rules.  `many` and `afterComma` stand for the repetitions `x*` and
`(',' x)*` on their right sides. -/
inductive Part where
  | program
  | decl
  | varDecl
  | fnDecl
  | structDecl
  | formals
  | formalDecl
  | fnBody
  | type
  | stmt
  | block
  | exp
  | term
  | call
  | loc
  | many (part : Part)
  | afterComma (part : Part)
  deriving DecidableEq, Repr

/-- The lists of kinds that can be derived from a part. -/
inductive Derives : Part → List Kind → Prop
  -- repetitions
  | manyNil {p : Part} : Derives (.many p) []
  | manyCons {p : Part} {u v : List Kind} :
      Derives p u → Derives (.many p) v → Derives (.many p) (u ++ v)
  | afterComma {p : Part} {u : List Kind} :
      Derives p u → Derives (.afterComma p) (.symbol .comma :: u)
  -- program ::= decl*
  | program {u : List Kind} : Derives (.many .decl) u → Derives .program u
  -- decl ::= varDecl | fnDecl | structDecl
  | varDecl {u : List Kind} : Derives .varDecl u → Derives .decl u
  | fnDecl {u : List Kind} : Derives .fnDecl u → Derives .decl u
  | structDecl {u : List Kind} : Derives .structDecl u → Derives .decl u
  -- varDecl ::= type ID ';' | 'struct' ID ID ';'
  | typeVar {t : List Kind} :
      Derives .type t → Derives .varDecl (t ++ [.name, .symbol .semicolon])
  | structVar : Derives .varDecl [.keyword .struct, .name, .name, .symbol .semicolon]
  -- fnDecl ::= type ID formals fnBody
  | function {t f b : List Kind} :
      Derives .type t → Derives .formals f → Derives .fnBody b →
        Derives .fnDecl (t ++ .name :: (f ++ b))
  -- structDecl ::= 'struct' ID '{' varDecl+ '}' ';'
  | struct {v vs : List Kind} :
      Derives .varDecl v → Derives (.many .varDecl) vs →
        Derives .structDecl (.keyword .struct :: .name :: .symbol .leftCurly ::
          (v ++ vs ++ [.symbol .rightCurly, .symbol .semicolon]))
  -- formals ::= '(' ')' | '(' formalDecl (',' formalDecl)* ')'
  | noFormals : Derives .formals [.symbol .leftParen, .symbol .rightParen]
  | someFormals {f fs : List Kind} :
      Derives .formalDecl f → Derives (.many (.afterComma .formalDecl)) fs →
        Derives .formals (.symbol .leftParen :: (f ++ fs ++ [.symbol .rightParen]))
  -- formalDecl ::= type ID
  | formalDecl {t : List Kind} : Derives .type t → Derives .formalDecl (t ++ [.name])
  -- fnBody ::= '{' varDecl* stmt* '}'
  | fnBody {vs ss : List Kind} :
      Derives (.many .varDecl) vs → Derives (.many .stmt) ss →
        Derives .fnBody (.symbol .leftCurly :: (vs ++ ss ++ [.symbol .rightCurly]))
  -- type ::= 'int' | 'bool' | 'void'
  | int : Derives .type [.keyword .int]
  | bool : Derives .type [.keyword .bool]
  | void : Derives .type [.keyword .void]
  -- stmt
  | assignment {l e : List Kind} :
      Derives .loc l → Derives .exp e →
        Derives .stmt (l ++ .symbol .assign :: (e ++ [.symbol .semicolon]))
  | increment {l : List Kind} :
      Derives .loc l → Derives .stmt (l ++ [.symbol .plusPlus, .symbol .semicolon])
  | decrement {l : List Kind} :
      Derives .loc l → Derives .stmt (l ++ [.symbol .minusMinus, .symbol .semicolon])
  | read {l : List Kind} :
      Derives .loc l →
        Derives .stmt (.keyword .cin :: .symbol .read :: (l ++ [.symbol .semicolon]))
  | write {e : List Kind} :
      Derives .exp e →
        Derives .stmt (.keyword .cout :: .symbol .write :: (e ++ [.symbol .semicolon]))
  | ifThen {e b : List Kind} :
      Derives .exp e → Derives .block b →
        Derives .stmt (.keyword .ifWord :: .symbol .leftParen ::
          (e ++ .symbol .rightParen :: b))
  | ifElse {e b d : List Kind} :
      Derives .exp e → Derives .block b → Derives .block d →
        Derives .stmt (.keyword .ifWord :: .symbol .leftParen ::
          (e ++ .symbol .rightParen :: (b ++ .keyword .elseWord :: d)))
  | whileLoop {e b : List Kind} :
      Derives .exp e → Derives .block b →
        Derives .stmt (.keyword .whileWord :: .symbol .leftParen ::
          (e ++ .symbol .rightParen :: b))
  | repeatLoop {e b : List Kind} :
      Derives .exp e → Derives .block b →
        Derives .stmt (.keyword .repeatWord :: .symbol .leftParen ::
          (e ++ .symbol .rightParen :: b))
  | returnNothing : Derives .stmt [.keyword .returnWord, .symbol .semicolon]
  | returnValue {e : List Kind} :
      Derives .exp e → Derives .stmt (.keyword .returnWord :: (e ++ [.symbol .semicolon]))
  | callStmt {c : List Kind} : Derives .call c → Derives .stmt (c ++ [.symbol .semicolon])
  -- block ::= '{' varDecl* stmt* '}'
  | block {vs ss : List Kind} :
      Derives (.many .varDecl) vs → Derives (.many .stmt) ss →
        Derives .block (.symbol .leftCurly :: (vs ++ ss ++ [.symbol .rightCurly]))
  -- exp ::= loc '=' exp | exp binop exp | '!' exp | '-' exp | term
  | assign {l e : List Kind} :
      Derives .loc l → Derives .exp e → Derives .exp (l ++ .symbol .assign :: e)
  | binary {e f : List Kind} (op : BinaryOp) :
      Derives .exp e → Derives .exp f → Derives .exp (e ++ .symbol op.symbol :: f)
  | not {e : List Kind} : Derives .exp e → Derives .exp (.symbol .not :: e)
  | minus {e : List Kind} : Derives .exp e → Derives .exp (.symbol .minus :: e)
  | term {u : List Kind} : Derives .term u → Derives .exp u
  -- term ::= loc | INTLITERAL | STRINGLITERAL | 'true' | 'false' | '(' exp ')' | call
  | locTerm {l : List Kind} : Derives .loc l → Derives .term l
  | number : Derives .term [.number]
  | string : Derives .term [.string]
  | trueWord : Derives .term [.keyword .trueWord]
  | falseWord : Derives .term [.keyword .falseWord]
  | parens {e : List Kind} :
      Derives .exp e → Derives .term (.symbol .leftParen :: (e ++ [.symbol .rightParen]))
  | callTerm {c : List Kind} : Derives .call c → Derives .term c
  -- call ::= ID '(' [exp (',' exp)*] ')'
  | callNothing : Derives .call [.name, .symbol .leftParen, .symbol .rightParen]
  | callSome {e es : List Kind} :
      Derives .exp e → Derives (.many (.afterComma .exp)) es →
        Derives .call (.name :: .symbol .leftParen :: (e ++ es ++ [.symbol .rightParen]))
  -- loc ::= ID | loc '.' ID
  | name : Derives .loc [.name]
  | field {l : List Kind} : Derives .loc l → Derives .loc (l ++ [.symbol .dot, .name])

/-- The end of the input is no part of any derived list. -/
theorem Derives.endOfInput_notMem {p : Part} {w : List Kind} (h : Derives p w) :
    .endOfInput ∉ w := by
  induction h <;> simp_all

end Cmm

/-!
The kinds of tokens: reserved words, symbols, and the three kinds that carry a value.
-/

namespace Cmm

inductive Keyword where
  | int
  | bool
  | void
  | trueWord
  | falseWord
  | struct
  | cin
  | cout
  | ifWord
  | elseWord
  | whileWord
  | repeatWord
  | returnWord
  deriving DecidableEq, Repr

namespace Keyword

def all : List Keyword :=
  [.int, .bool, .void, .trueWord, .falseWord, .struct, .cin, .cout, .ifWord, .elseWord,
    .whileWord, .repeatWord, .returnWord]

def spelling : Keyword → String
  | .int => "int"
  | .bool => "bool"
  | .void => "void"
  | .trueWord => "true"
  | .falseWord => "false"
  | .struct => "struct"
  | .cin => "cin"
  | .cout => "cout"
  | .ifWord => "if"
  | .elseWord => "else"
  | .whileWord => "while"
  | .repeatWord => "repeat"
  | .returnWord => "return"

def label : Keyword → String
  | .int => "INT"
  | .bool => "BOOL"
  | .void => "VOID"
  | .trueWord => "TRUE"
  | .falseWord => "FALSE"
  | .struct => "STRUCT"
  | .cin => "CIN"
  | .cout => "COUT"
  | .ifWord => "IF"
  | .elseWord => "ELSE"
  | .whileWord => "WHILE"
  | .repeatWord => "REPEAT"
  | .returnWord => "RETURN"

theorem mem_all (word : Keyword) : word ∈ all := by
  cases word <;> decide

def ofSpelling? (text : String) : Option Keyword :=
  all.find? (·.spelling = text)

theorem ofSpelling?_spelling (word : Keyword) : ofSpelling? word.spelling = some word := by
  cases word <;> decide

theorem spelling_of_ofSpelling? {text : String} {word : Keyword}
    (h : ofSpelling? text = some word) : word.spelling = text := by
  simpa using List.find?_some h

end Keyword

inductive Symbol where
  | plus
  | minus
  | times
  | divide
  | not
  | and
  | or
  | equals
  | notEquals
  | less
  | greater
  | lessEq
  | greaterEq
  | assign
  | plusPlus
  | minusMinus
  | read
  | write
  | dot
  | leftParen
  | rightParen
  | leftCurly
  | rightCurly
  | semicolon
  | comma
  deriving DecidableEq, Repr

namespace Symbol

def all : List Symbol :=
  [.plus, .minus, .times, .divide, .not, .and, .or, .equals, .notEquals, .less, .greater,
    .lessEq, .greaterEq, .assign, .plusPlus, .minusMinus, .read, .write, .dot, .leftParen,
    .rightParen, .leftCurly, .rightCurly, .semicolon, .comma]

def spelling : Symbol → String
  | .plus => "+"
  | .minus => "-"
  | .times => "*"
  | .divide => "/"
  | .not => "!"
  | .and => "&&"
  | .or => "||"
  | .equals => "=="
  | .notEquals => "!="
  | .less => "<"
  | .greater => ">"
  | .lessEq => "<="
  | .greaterEq => ">="
  | .assign => "="
  | .plusPlus => "++"
  | .minusMinus => "--"
  | .read => ">>"
  | .write => "<<"
  | .dot => "."
  | .leftParen => "("
  | .rightParen => ")"
  | .leftCurly => "\x7b"
  | .rightCurly => "\x7d"
  | .semicolon => ";"
  | .comma => ","

def label : Symbol → String
  | .plus => "PLUS"
  | .minus => "MINUS"
  | .times => "TIMES"
  | .divide => "DIVIDE"
  | .not => "NOT"
  | .and => "AND"
  | .or => "OR"
  | .equals => "EQUALS"
  | .notEquals => "NOTEQUALS"
  | .less => "LESS"
  | .greater => "GREATER"
  | .lessEq => "LESSEQ"
  | .greaterEq => "GREATEREQ"
  | .assign => "ASSIGN"
  | .plusPlus => "PLUSPLUS"
  | .minusMinus => "MINUSMINUS"
  | .read => "READ"
  | .write => "WRITE"
  | .dot => "DOT"
  | .leftParen => "LPAREN"
  | .rightParen => "RPAREN"
  | .leftCurly => "LCURLY"
  | .rightCurly => "RCURLY"
  | .semicolon => "SEMICOLON"
  | .comma => "COMMA"

theorem mem_all (sign : Symbol) : sign ∈ all := by
  cases sign <;> decide

def ofPair? (c d : Char) : Option Symbol :=
  all.find? (·.spelling.toList = [c, d])

def ofChar? (c : Char) : Option Symbol :=
  all.find? (·.spelling.toList = [c])

theorem spelling_of_ofPair? {c d : Char} {sign : Symbol} (h : ofPair? c d = some sign) :
    sign.spelling.toList = [c, d] := by
  simpa using List.find?_some h

theorem spelling_of_ofChar? {c : Char} {sign : Symbol} (h : ofChar? c = some sign) :
    sign.spelling.toList = [c] := by
  simpa using List.find?_some h

end Symbol

/-- What reading looks at in a token. -/
inductive Kind where
  | number
  | string
  | name
  | keyword (word : Keyword)
  | symbol (sign : Symbol)
  | endOfInput
  deriving DecidableEq, Repr

namespace Kind

def label : Kind → String
  | .number => "INTLITERAL"
  | .string => "STRINGLITERAL"
  | .name => "ID"
  | .keyword word => word.label
  | .symbol sign => sign.label
  | .endOfInput => "EOF"

def all : List Kind :=
  [.number, .string, .name] ++ Keyword.all.map .keyword ++ Symbol.all.map .symbol ++ [.endOfInput]

theorem mem_all (kind : Kind) : kind ∈ all := by
  cases kind with
  | keyword word => simp [all, Keyword.mem_all]
  | symbol sign => simp [all, Symbol.mem_all]
  | _ => simp [all]

def ofLabel? (text : String) : Option Kind :=
  all.find? (·.label = text)

end Kind

end Cmm

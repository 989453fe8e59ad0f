import Cmm.Token.Basic

/-!
# Tokens without their own spelling

Reserved words and symbols may be spelled in any way in a token list, so tokens are compared after
every reserved word and symbol has got its own spelling.
-/

namespace Cmm

def Lexeme.ofKeyword (word : Keyword) : Lexeme := .keyword word word.spelling

def Lexeme.plain : Lexeme → Lexeme
  | .keyword word _ => .ofKeyword word
  | .symbol sign _ => .ofSymbol sign
  | lexeme => lexeme

def Token.plain (t : Token) : Lexeme := t.lexeme.plain

@[simp] theorem Lexeme.kind_plain (l : Lexeme) : l.plain.kind = l.kind := by
  cases l <;> rfl

@[simp] theorem Token.kind_plain (t : Token) : t.plain.kind = t.kind :=
  t.lexeme.kind_plain

theorem Token.plain_eq_ofSymbol_iff {t : Token} {sign : Symbol} :
    t.plain = .ofSymbol sign ↔ t.kind = .symbol sign := by
  unfold plain kind
  cases t.lexeme <;> simp [Lexeme.plain, Lexeme.kind, Lexeme.ofSymbol, Lexeme.ofKeyword]
  rintro rfl
  rfl

theorem Token.plain_eq_ofKeyword_iff {t : Token} {word : Keyword} :
    t.plain = .ofKeyword word ↔ t.kind = .keyword word := by
  unfold plain kind
  cases t.lexeme <;> simp [Lexeme.plain, Lexeme.kind, Lexeme.ofSymbol, Lexeme.ofKeyword]
  rintro rfl
  rfl

theorem Token.plain_eq_name_iff {t : Token} {text : String} :
    t.plain = .name text ↔ t.lexeme = .name text := by
  unfold plain
  cases t.lexeme <;> simp [Lexeme.plain, Lexeme.ofSymbol, Lexeme.ofKeyword]

theorem Token.plain_eq_number_iff {t : Token} {value : Int} :
    t.plain = .number value ↔ t.lexeme = .number value := by
  unfold plain
  cases t.lexeme <;> simp [Lexeme.plain, Lexeme.ofSymbol, Lexeme.ofKeyword]

theorem Token.plain_eq_string_iff {t : Token} {raw : String} :
    t.plain = .string raw ↔ t.lexeme = .string raw := by
  unfold plain
  cases t.lexeme <;> simp [Lexeme.plain, Lexeme.ofSymbol, Lexeme.ofKeyword]

theorem Token.plain_eq_endOfInput_iff {t : Token} : t.plain = .endOfInput ↔ t.kind = .endOfInput := by
  unfold plain kind
  cases t.lexeme <;> simp [Lexeme.plain, Lexeme.kind, Lexeme.ofSymbol, Lexeme.ofKeyword]

end Cmm

import Cmm.Proofs.Token.Scanning

/-!
# Lexemes with something between them

A text that lays out lexemes one after another is scanned as these lexemes, whatever stands between
them, as long as something does wherever two of them would be taken together.
-/

namespace Cmm

/-! ## Separators -/

/-- Blanks and comments, each comment with the line feed that ends it. -/
inductive Separator : List Char → Prop
  | nil : Separator []
  | blank {c : Char} {rest : List Char} (hc : c ∈ [' ', '\t', '\r', '\n']) (h : Separator rest) :
    Separator (c :: rest)
  | comment {mark body rest : List Char} (hmark : mark = ['#'] ∨ mark = ['/', '/'])
      (hbody : '\n' ∉ body) (h : Separator rest) : Separator (mark ++ body ++ '\n' :: rest)

inductive LastSeparator : List Char → Prop
  | ended {text : List Char} (h : Separator text) : LastSeparator text
  | comment {front mark body : List Char} (h : Separator front)
      (hmark : mark = ['#'] ∨ mark = ['/', '/']) (hbody : '\n' ∉ body) :
    LastSeparator (front ++ (mark ++ body))

/-! ## Texts that scan without errors -/

/-- The text is cut into pieces that give the lexemes and no errors. -/
def ScansAs (text : List Char) (lexemes : List Lexeme) : Prop :=
  ∃ segments, Tiles text segments ∧ segments.filterMap Segment.lexeme? = lexemes ∧
    ∀ s ∈ segments, s.cause? = none ∧ s.unreadable? = none

namespace ScansAs

variable {s : Segment} {l : Lexeme} {text rest : List Char} {lexemes : List Lexeme}

theorem nil : ScansAs [] [] :=
  ⟨[], .nil, rfl, nofun⟩

theorem cons_of_none (hs : s.Stands rest) (h : ScansAs rest lexemes) (hlexeme : s.lexeme? = none)
    (hclean : s.cause? = none ∧ s.unreadable? = none) : ScansAs (s.text ++ rest) lexemes := by
  obtain ⟨segments, htiles, hlexemes, hall⟩ := h
  refine ⟨s :: segments, .cons hs htiles, ?_, List.forall_mem_cons.2 ⟨hclean, hall⟩⟩
  rw [List.filterMap_cons_none hlexeme, hlexemes]

theorem cons_of_some (hs : s.Stands rest) (h : ScansAs rest lexemes) (hlexeme : s.lexeme? = some l) :
    ScansAs (s.text ++ rest) (l :: lexemes) := by
  obtain ⟨segments, htiles, hlexemes, hall⟩ := h
  have hclean : s.cause? = none ∧ s.unreadable? = none := by
    obtain ⟨text, content⟩ := s
    cases content <;> first
      | exact ⟨rfl, rfl⟩
      | cases hlexeme
  refine ⟨s :: segments, .cons hs htiles, ?_, List.forall_mem_cons.2 ⟨hclean, hall⟩⟩
  rw [List.filterMap_cons_some hlexeme, hlexemes]

theorem blank {c : Char} (hc : c ∈ [' ', '\t', '\r', '\n']) (h : ScansAs rest lexemes) :
    ScansAs (c :: rest) lexemes :=
  cons_of_none (.blank hc) h rfl ⟨rfl, rfl⟩

theorem comment {mark body : List Char} (hmark : mark = ['#'] ∨ mark = ['/', '/'])
    (hbody : '\n' ∉ body) (hend : AtLineEnd rest) (h : ScansAs rest lexemes) :
    ScansAs (mark ++ body ++ rest) lexemes :=
  cons_of_none (.comment hmark hbody hend) h rfl ⟨rfl, rfl⟩

theorem ofText (h : ScansAs text lexemes) : (Scan.ofText text).errors = [] ∧
    ∃ tokens p, (Scan.ofText text).tokens = .ok (tokens ++ [.endOfInput p]) ∧
      tokens.map Token.lexeme = lexemes := by
  obtain ⟨segments, htiles, hlexemes, hall⟩ := h
  have hpieces : ∀ piece ∈ Piece.behind [] segments, piece.error? = none := by
    intro piece hpiece
    have hmem : piece.segment ∈ segments := by
      rw [← Piece.map_segment_behind [] segments]
      exact List.mem_map_of_mem hpiece
    rw [Piece.error?, (hall _ hmem).1, Option.map_none]
  rw [htiles.ofText_eq fun s hs => (hall s hs).2]
  refine ⟨List.filterMap_eq_nil_iff.2 hpieces, _, _, rfl, ?_⟩
  rw [map_lexeme_filterMap_token?, Piece.map_segment_behind, hlexemes]

end ScansAs

theorem Separator.scansAs {text rest : List Char} {lexemes : List Lexeme} (h : Separator text)
    (hrest : ScansAs rest lexemes) : ScansAs (text ++ rest) lexemes := by
  induction h with
  | nil => exact hrest
  | blank hc _ ih => exact ih.blank hc
  | comment hmark hbody _ ih =>
      rw [List.append_assoc]
      exact (ih.blank (by simp)).comment hmark hbody (by simp [AtLineEnd])

theorem LastSeparator.scansAs {text : List Char} (h : LastSeparator text) : ScansAs text [] := by
  cases h with
  | ended h =>
      rw [← List.append_nil text]
      exact h.scansAs .nil
  | @comment front mark body h hmark hbody =>
      have hcomment := ScansAs.nil.comment hmark hbody (by simp [AtLineEnd])
      rw [List.append_nil] at hcomment
      exact h.scansAs hcomment

theorem Spelling.scansAs {text rest : List Char} {l : Lexeme} {lexemes : List Lexeme}
    (h : Spelling text l) (hend : ∀ d ∈ rest.head?, l.EndsBefore d) (hrest : ScansAs rest lexemes) :
    ScansAs (text ++ rest) (l :: lexemes) := by
  obtain ⟨s, rfl, hs, hlexeme⟩ := h.exists_stands hend
  exact hrest.cons_of_some hs hlexeme

/-! ## What a separator begins with -/

def separatorStarts : List Char := [' ', '\t', '\r', '\n', '#', '/']

theorem head_mark {mark : List Char} (h : mark = ['#'] ∨ mark = ['/', '/']) (text : List Char) :
    ∀ c ∈ (mark ++ text).head?, c ∈ separatorStarts := by
  rcases h with rfl | rfl <;> simp [separatorStarts]

theorem Separator.head {text : List Char} (h : Separator text) :
    ∀ c ∈ text.head?, c ∈ separatorStarts := by
  cases h with
  | nil => simp
  | @blank c rest hc _ =>
      rintro _ ⟨⟩
      exact List.mem_append_left ['#', '/'] hc
  | comment hmark _ _ =>
      rw [List.append_assoc]
      exact head_mark hmark _

theorem LastSeparator.head {text : List Char} (h : LastSeparator text) :
    ∀ c ∈ text.head?, c ∈ separatorStarts := by
  cases h with
  | ended h => exact h.head
  | @comment front mark body h hmark hbody =>
      cases front with
      | nil => exact head_mark hmark body
      | cons c rest => exact h.head

/-! ## Lexemes in a row -/

structure Spelt where
  text : List Char
  lexeme : Lexeme
  spelling : Spelling text lexeme

def Lexeme.isWord : Lexeme → Bool
  | .keyword .. | .name _ => true
  | _ => false

def Lexeme.isNumber : Lexeme → Bool
  | .number _ => true
  | _ => false

namespace Spelt

/-- Two lexemes that are not told apart where nothing stands between them: a word in front of a word
or a number, a number in front of a number, and a symbol of one character in front of a character
with which it makes another symbol or begins a comment. -/
def Glues (s t : Spelt) : Prop :=
  s.lexeme.isWord = true ∧ (t.lexeme.isWord = true ∨ t.lexeme.isNumber = true) ∨
    s.lexeme.isNumber = true ∧ t.lexeme.isNumber = true ∨
    ∃ d ∈ t.text.head?, s.text ++ [d] = ['/', '/'] ∨
      ∃ sign : Symbol, sign.spelling.toList = s.text ++ [d]

instance (text : List Char) : Decidable (∃ sign : Symbol, sign.spelling.toList = text) :=
  decidable_of_iff (∃ sign ∈ Symbol.all, sign.spelling.toList = text) (by simp [Symbol.mem_all])

instance (s t : Spelt) : Decidable (s.Glues t) :=
  have : Decidable (∃ d ∈ t.text.head?, s.text ++ [d] = ['/', '/'] ∨
      ∃ sign : Symbol, sign.spelling.toList = s.text ++ [d]) :=
    Option.decidableExistsMem _
  inferInstanceAs (Decidable (_ ∨ _ ∨ _))

/-- Lexemes, each with what stands behind it, of which every one is told from the next. -/
def LaidOut : List (Spelt × List Char) → Prop
  | [] => True
  | [(s, sep)] => LastSeparator sep ∧ (s.text = ['/'] → sep.head? ≠ some '/')
  | (s, sep) :: (t, sep') :: rest =>
    Separator sep ∧ (s.text = ['/'] → sep.head? ≠ some '/') ∧ (sep = [] → ¬s.Glues t) ∧
      LaidOut ((t, sep') :: rest)

def layout (pieces : List (Spelt × List Char)) : List Char :=
  pieces.flatMap fun piece => piece.1.text ++ piece.2

end Spelt

theorem Spelling.endsBefore_separator {text : List Char} {l : Lexeme} (h : Spelling text l)
    {d : Char} (hd : d ∈ separatorStarts) (hslash : text = ['/'] → d ≠ '/') : l.EndsBefore d := by
  have hpart : isWordPart d = false :=
    Bool.eq_false_iff.2 (List.any_eq_false.1 (by decide) d hd)
  cases h with
  | keyword | name => exact hpart
  | number => exact Bool.eq_false_iff.2 fun hdigit => by simp [isWordPart_of_isDigit hdigit] at hpart
  | string => trivial
  | symbol sign =>
      intro c hsign
      rw [hsign] at hslash
      refine ⟨fun heq => ?_, fun other hother => ?_⟩
      · simp only [List.cons.injEq, and_true] at heq
        exact hslash (by rw [heq.1]) heq.2
      · have hnone : ∀ other : Symbol, ∀ c, other.spelling.toList ≠ [c, d] := by
          intro other c heq
          simp only [separatorStarts, List.mem_cons, List.not_mem_nil, or_false] at hd
          rcases hd with rfl | rfl | rfl | rfl | rfl | rfl <;> cases other <;> cases heq
        exact hnone other c hother

theorem Spelling.text_of_symbol {text : List Char} {sign : Symbol} {spelling : String}
    (h : Spelling text (.symbol sign spelling)) : text = sign.spelling.toList := by
  cases h
  rfl

theorem Spelling.exists_cons {text : List Char} {l : Lexeme} (h : Spelling text l) :
    ∃ d more, text = d :: more ∧ (l.isWord = false → isWordPart d = true → l.isNumber = true) ∧
      (l.isNumber = false → d.isDigit = false) := by
  cases h with
  | keyword word =>
      obtain ⟨c, more, htext, hc, -⟩ := word.exists_spelling_eq_cons
      exact ⟨c, more, htext, nofun, fun _ => not_isDigit_of_isWordStart hc⟩
  | name hc _ _ => exact ⟨_, _, rfl, nofun, fun _ => not_isDigit_of_isWordStart hc⟩
  | @number digits hne hdigits _ =>
      obtain ⟨c, more, rfl⟩ := List.exists_cons_of_ne_nil hne
      exact ⟨c, more, rfl, fun _ _ => rfl, nofun⟩
  | string _ =>
      refine ⟨_, _, rfl, fun _ hpart => ?_, fun _ => rfl⟩
      exact absurd hpart (by decide)
  | symbol sign =>
      cases sign <;>
        exact ⟨_, _, rfl, fun _ hpart => absurd hpart (by decide), fun _ => rfl⟩

namespace Spelt

theorem endsBefore_of_not_glues {s t : Spelt} (h : ¬s.Glues t) :
    ∀ d ∈ t.text.head?, s.lexeme.EndsBefore d := by
  obtain ⟨d, more, htext, hpart, hdigit⟩ := t.spelling.exists_cons
  rw [htext]
  rintro _ ⟨⟩
  simp only [Glues, not_or, not_and, not_exists, Bool.not_eq_true] at h
  obtain ⟨hword, hnumber, hsymbol⟩ := h
  cases hs : s.lexeme with
  | keyword | name =>
      rw [hs] at hword
      obtain ⟨htword, htnumber⟩ := hword rfl
      refine Bool.eq_false_iff.2 fun hd => ?_
      rw [hpart htword hd] at htnumber
      cases htnumber
  | number value => exact hdigit (hnumber (by rw [hs]; rfl))
  | string | endOfInput => trivial
  | symbol sign text =>
      intro c hsign
      have hspelling := s.spelling
      rw [hs] at hspelling
      rw [htext, hspelling.text_of_symbol.trans hsign] at hsymbol
      exact hsymbol d rfl

theorem endsBefore_append {s : Spelt} {sep rest : List Char}
    (hhead : ∀ d ∈ sep.head?, d ∈ separatorStarts) (hslash : s.text = ['/'] → sep.head? ≠ some '/')
    (hrest : sep = [] → ∀ d ∈ rest.head?, s.lexeme.EndsBefore d) :
    ∀ d ∈ (sep ++ rest).head?, s.lexeme.EndsBefore d := by
  cases sep with
  | nil => exact hrest rfl
  | cons c more =>
      rintro _ ⟨⟩
      refine s.spelling.endsBefore_separator (hhead c rfl) fun htext => ?_
      rintro rfl
      exact hslash htext rfl

theorem layout_cons (s : Spelt) (sep : List Char) (pieces : List (Spelt × List Char)) :
    layout ((s, sep) :: pieces) = s.text ++ (sep ++ layout pieces) := by
  rw [layout, List.flatMap_cons, List.append_assoc]
  rfl

theorem LaidOut.scansAs {pieces : List (Spelt × List Char)} (h : LaidOut pieces) :
    ScansAs (layout pieces) (pieces.map (·.1.lexeme)) := by
  fun_induction LaidOut pieces with
  | case1 => exact .nil
  | case2 s sep =>
      obtain ⟨hsep, hslash⟩ := h
      have hend : ∀ d ∈ (sep ++ []).head?, s.lexeme.EndsBefore d :=
        endsBefore_append hsep.head hslash nofun
      rw [List.append_nil] at hend
      rw [layout_cons, layout, List.flatMap_nil, List.append_nil]
      exact s.spelling.scansAs hend hsep.scansAs
  | case3 s sep t sep' rest ih =>
      obtain ⟨hsep, hslash, hglue, hrest⟩ := h
      have hnext : sep = [] → ∀ d ∈ (layout ((t, sep') :: rest)).head?, s.lexeme.EndsBefore d := by
        intro hnil d hd
        refine endsBefore_of_not_glues (hglue hnil) d ?_
        obtain ⟨c, more, htext, -⟩ := t.spelling.exists_cons
        rw [layout_cons, htext] at hd
        rw [htext]
        exact hd
      rw [layout_cons]
      exact s.spelling.scansAs (endsBefore_append hsep.head hslash hnext) (hsep.scansAs (ih hrest))

def Admissible (front : List Char) (pieces : List (Spelt × List Char)) : Prop :=
  match pieces with
  | [] => LastSeparator front
  | _ :: _ => Separator front ∧ LaidOut pieces

theorem Admissible.scansAs {front : List Char} {pieces : List (Spelt × List Char)}
    (h : Admissible front pieces) :
    ScansAs (front ++ layout pieces) (pieces.map (·.1.lexeme)) := by
  cases pieces with
  | nil =>
      rw [layout, List.flatMap_nil, List.append_nil]
      exact LastSeparator.scansAs h
  | cons => exact h.1.scansAs h.2.scansAs

end Spelt

/-- Lexemes that are told apart, by blanks and comments or because they do not glue, are scanned as
they stand: without errors, one token for each of them in order, and then the end of the input. -/
theorem scan_layout {front : List Char} {pieces : List (Spelt × List Char)}
    (h : Spelt.Admissible front pieces) :
    (Scan.ofText (front ++ Spelt.layout pieces)).errors = [] ∧
      ∃ tokens p, (Scan.ofText (front ++ Spelt.layout pieces)).tokens =
          .ok (tokens ++ [.endOfInput p]) ∧
        tokens.map Token.lexeme = pieces.map (·.1.lexeme) :=
  h.scansAs.ofText

private def wordPiece : Spelt := ⟨_, _, .keyword .ifWord⟩

private def parenPiece : Spelt := ⟨_, _, .symbol .leftParen⟩

private def numberPiece : Spelt :=
  ⟨['0', '7'], .number 7, .number (by simp) (List.all_eq_true.1 (by decide)) (by decide)⟩

private def namePiece : Spelt :=
  ⟨['x', '1'], .name "x1", .name (by decide) (List.all_eq_true.1 (by decide)) fun word => by
    cases word <;> decide⟩

private def slashPiece : Spelt := ⟨_, _, .symbol .divide⟩

private def stringPiece : Spelt :=
  ⟨['"', 'a', '"'], .string "\"a\"", .string (.plain (by decide) (by decide) (by decide) .nil)⟩

private def mixedPieces : List (Spelt × List Char) :=
  [(wordPiece, []), (parenPiece, []), (numberPiece, []), (namePiece, []), (slashPiece, [' ']),
    (slashPiece, []), (stringPiece, ['/', '/', 'g'])]

private def mixedText : String := "#f\nif(07x1/ /\"a\"//g"

theorem scan_layout_of_mixed : Spelt.Admissible ['#', 'f', '\n'] mixedPieces ∧
    (Scan.ofText mixedText.toList).errors = [] ∧
    ∃ tokens p, (Scan.ofText mixedText.toList).tokens = .ok (tokens ++ [.endOfInput p]) ∧
      tokens.map Token.lexeme = [.keyword .ifWord "if", .symbol .leftParen "(", .number 7,
        .name "x1", .symbol .divide "/", .symbol .divide "/", .string "\"a\""] := by
  have hlast : LastSeparator ['/', '/', 'g'] := .comment .nil (.inr rfl) (by decide)
  have hpieces : Spelt.LaidOut mixedPieces :=
    ⟨.nil, by decide, by decide, .nil, by decide, by decide, .nil, by decide, by decide,
      .nil, by decide, by decide, .blank (by decide) .nil, by decide, by decide, .nil, by decide,
      by decide, hlast, by decide⟩
  have hbody : '\n' ∉ ['f'] := by decide
  have h : Spelt.Admissible ['#', 'f', '\n'] mixedPieces :=
    ⟨.comment (.inl rfl) hbody .nil, hpieces⟩
  have htext : ['#', 'f', '\n'] ++ Spelt.layout mixedPieces = mixedText.toList := by decide
  exact ⟨h, htext ▸ scan_layout h⟩

end Cmm

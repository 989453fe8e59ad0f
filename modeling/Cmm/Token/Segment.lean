import Cmm.Token.Basic
import Cmm.Token.Literal
import Cmm.Warning

/-!
A source text is cut, without gap or overlap, into segments: single blanks, comments, words,
numbers, string literals, symbols, malformed string literals and single illegal characters.

Tokens, errors and warnings are read off the segments and the positions where they start.
-/

namespace Cmm

inductive Content where
  | blank
  | comment
  | word
  | number (value : Nat)
  | string
  | symbol (sign : Symbol)
  | malformed (cause : LexicalCause)
  | unreadable (error : NumeralError)
  deriving DecidableEq, Repr

structure Segment where
  text : List Char
  content : Content
  deriving DecidableEq, Repr

namespace Segment

def startsComment (c : Char) (rest : List Char) : Bool :=
  c = '#' || (c = '/' && rest.head? = some '/')

def ofDigits (digits : List Char) : Segment :=
  match numeralValue digits with
  | .ok value => ⟨digits, .number value⟩
  | .error e => ⟨digits, .unreadable e⟩

/-- A symbol, or an illegal character.  Symbols of two characters go first. -/
def ofSign (c : Char) (rest : List Char) : Segment :=
  match rest.head?.bind (Symbol.ofPair? c) with
  | some sign => ⟨sign.spelling.toList, .symbol sign⟩
  | none =>
    match Symbol.ofChar? c with
    | some sign => ⟨[c], .symbol sign⟩
    | none => ⟨[c], .malformed (.illegalCharacter c)⟩

def first (c : Char) (rest : List Char) : Segment :=
  if isSpace c then ⟨[c], .blank⟩
  else if startsComment c rest then ⟨c :: rest.takeWhile inLine, .comment⟩
  else if c = '"' then
    let scan := scanString rest
    match scan.cause? with
    | none => ⟨c :: scan.taken, .string⟩
    | some cause => ⟨c :: scan.taken, .malformed cause⟩
  else if c.isDigit then ofDigits (c :: rest.takeWhile Char.isDigit)
  else if isWordStart c then ⟨c :: rest.takeWhile isWordPart, .word⟩
  else ofSign c rest

def split : List Char → List Segment
  | [] => []
  | c :: rest =>
    let s := first c rest
    s :: split (rest.drop (s.text.length - 1))
termination_by text => text.length
decreasing_by simp only [List.length_drop, List.length_cons]; omega

theorem split_nil : split [] = [] := by
  rw [split]

theorem split_cons (c : Char) (rest : List Char) :
    split (c :: rest) =
      first c rest :: split (rest.drop ((first c rest).text.length - 1)) := by
  rw [split]

theorem first_isPrefix (c : Char) (rest : List Char) :
    ∃ more, (first c rest).text = c :: more ∧ more <+: rest := by
  have digits : ∀ ds, (ofDigits ds).text = ds := by
    intro ds
    unfold ofDigits
    split <;> rfl
  have sign : ∃ more, (ofSign c rest).text = c :: more ∧ more <+: rest := by
    unfold ofSign
    split
    · rename_i sign h
      cases rest with
      | nil => simp at h
      | cons d rest =>
        have hs := Symbol.spelling_of_ofPair? (by simpa using h)
        exact ⟨[d], hs, by simp⟩
    · split <;> exact ⟨[], rfl, List.nil_prefix⟩
  unfold first
  split
  · exact ⟨[], rfl, List.nil_prefix⟩
  split
  · exact ⟨_, rfl, List.takeWhile_prefix _⟩
  split
  · have tiles : (scanString rest).taken <+: rest := ⟨_, scanString_tiles rest⟩
    dsimp only
    split <;> exact ⟨_, rfl, tiles⟩
  split
  · exact ⟨_, digits _, List.takeWhile_prefix _⟩
  split
  · exact ⟨_, rfl, List.takeWhile_prefix _⟩
  · exact sign

theorem flatMap_text_split (text : List Char) : (split text).flatMap Segment.text = text := by
  fun_induction split text with
  | case1 => rfl
  | case2 c rest s ih =>
    obtain ⟨more, htext, tail, hrest⟩ := first_isPrefix c rest
    have hs : s.text = c :: more := htext
    rw [List.flatMap_cons, ih, hs, ← hrest]
    simp

def lexeme? (s : Segment) : Option Lexeme :=
  match s.content with
  | .word => some (Lexeme.ofWord (String.ofList s.text))
  | .number value => some (.number (min value maxNumber : Nat))
  | .string => some (.string (String.ofList s.text))
  | .symbol sign => some (Lexeme.ofSymbol sign)
  | .blank | .comment | .malformed _ | .unreadable _ => none

def cause? (s : Segment) : Option LexicalCause :=
  match s.content with
  | .malformed cause => some cause
  | _ => none

def isTooLarge (s : Segment) : Bool :=
  match s.content with
  | .number value => maxNumber < value
  | _ => false

def unreadable? (s : Segment) : Option NumeralError :=
  match s.content with
  | .unreadable e => some e
  | _ => none

end Segment

/-- A segment at the position where it starts. -/
structure Piece where
  position : Position
  segment : Segment
  deriving DecidableEq, Repr

namespace Piece

def place : Position → List Segment → List Piece
  | _, [] => []
  | p, s :: rest => ⟨p, s⟩ :: place (p.after s.text) rest

def token? (piece : Piece) : Option Token :=
  piece.segment.lexeme?.map (⟨·, piece.position⟩)

def error? (piece : Piece) : Option LexicalError :=
  piece.segment.cause?.map (⟨·, piece.position⟩)

def warning? (piece : Piece) : Option Warning :=
  if piece.segment.isTooLarge then some (.numberTooLarge piece.position) else none

end Piece

end Cmm

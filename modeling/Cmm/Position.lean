/-!
Positions in a source text: line and column, both counted from one.  Only a line feed ends a line.
-/

namespace Cmm

structure Position where
  line : Int
  column : Int
  deriving DecidableEq, Repr

namespace Position

def start : Position := ⟨1, 1⟩

def next (p : Position) (c : Char) : Position :=
  if c = '\n' then ⟨p.line + 1, 1⟩ else ⟨p.line, p.column + 1⟩

def after (p : Position) (text : List Char) : Position :=
  text.foldl next p

@[simp] theorem after_nil (p : Position) : p.after [] = p := rfl

@[simp] theorem after_cons (p : Position) (c : Char) (text : List Char) :
    p.after (c :: text) = (p.next c).after text := rfl

theorem after_append (p : Position) (front back : List Char) :
    p.after (front ++ back) = (p.after front).after back := by
  simp [after, List.foldl_append]

def text (p : Position) : String := s!"{p.line}:{p.column}"

end Position

def locate (message : String) (p : Position) : String := message ++ " at " ++ p.text

end Cmm

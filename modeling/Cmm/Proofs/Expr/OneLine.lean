import Cmm.Proofs.Expr.Printed
import Cmm.Proofs.Node.Indentation
import Cmm.Proofs.Node.WellFormed
import Cmm.Proofs.Text.Quoted
import Cmm.Proofs.Token.Lines

/-!
# Expressions stand on one line

An expression is printed without line feeds and without braces.
-/

namespace Cmm

namespace Layout

@[simp] theorem chars_nil : chars [] = [] := rfl

@[simp] theorem chars_text (content : String) (items : List Item) :
    chars (.text content :: items) = content.toList ++ chars items :=
  rfl

@[simp] theorem chars_append (items items' : List Item) :
    chars (items ++ items') = chars items ++ chars items' :=
  List.flatMap_append

def InLine (items : List Item) : Prop := '\n' ∉ chars items

section

variable {items items' : List Item}

@[simp] theorem inLine_nil : InLine [] := nofun

@[simp] theorem inLine_text {content : String} :
    InLine (.text content :: items) ↔ '\n' ∉ content.toList ∧ InLine items := by
  simp [InLine]

@[simp] theorem inLine_append : InLine (items ++ items') ↔ InLine items ∧ InLine items' := by
  simp [InLine]

end

end Layout

open Layout (InLine)

/-! ## Line feeds -/

namespace Node

@[simp] theorem inLine_inParens {parens : Bool} {items : List Layout.Item} :
    InLine (inParens parens items) ↔ InLine items := by
  cases parens <;> simp [inParens]

theorem inLine_commaSeparated {itemss : List (List Layout.Item)}
    (h : ∀ items ∈ itemss, InLine items) :
    InLine (commaSeparated itemss) := by
  fun_induction commaSeparated itemss with
  | case1 => simp
  | case2 items => exact h items (by simp)
  | case3 items rest _ ih =>
      rw [List.forall_mem_cons] at h
      simpa using ⟨h.1, ih h.2⟩

theorem expressions_eq_map (ns : List Node) : expressions ns = ns.map (expression false) := by
  induction ns with
  | nil => rfl
  | cons n rest ih => rw [expressions, ih, List.map_cons]

theorem IsName.inLine {n : Node} (h : n.IsName) (parens : Bool) : InLine (n.expression parens) := by
  cases h with
  | name h => simpa [expression] using h.lineFeed_notMem

theorem IsLocation.inLine {n : Node} (h : n.IsLocation) (parens : Bool) :
    InLine (n.expression parens) := by
  induction h generalizing parens with
  | name h => exact h.inLine parens
  | dot _ hid ih => simp [expression, ih, hid.inLine]

theorem IsExpression.inLine {n : Node} (h : n.IsExpression) (parens : Bool) :
    InLine (n.expression parens) := by
  induction h generalizing parens with
  | @number value p _ _ =>
      simpa [expression] using (Text.printable_toString value).lineFeed_notMem
  | string h => simpa [expression] using h.lineFeed_notMem
  | truth value p => cases value <;> simp [expression]
  | location h => exact h.inLine parens
  | assign hlhs _ ih => simp [expression, ih, hlhs.inLine]
  | @call _ args _ _ hid _ ih =>
      have hargs : InLine (commaSeparated (expressions args)) := by
        refine inLine_commaSeparated fun items hitems => ?_
        rw [expressions_eq_map] at hitems
        obtain ⟨n, hn, rfl⟩ := List.mem_map.1 hitems
        exact ih n hn false
      simp [expression, arguments, hid.inLine, hargs]
  | unary op _ ih =>
      have hsign : '\n' ∉ op.spelling.toList := op.symbol.notMem_spelling_of_isSpace rfl
      simp [expression, ih, hsign]
  | binary op _ _ ihleft ihright =>
      have hsign : '\n' ∉ op.spelling.toList := op.symbol.notMem_spelling_of_isSpace rfl
      simp [expression, ihleft, ihright, hsign]

end Node

/-! ## Braces -/

theorem Loc.braces_lexemes (l : Loc) : braces l.lexemes = 0 := by
  induction l with
  | name id => rfl
  | field l id p ih => simp [lexemes, ih]

@[simp] theorem UnaryOp.brace_symbol (op : UnaryOp) : op.symbol.brace = 0 := by
  cases op <;> rfl

@[simp] theorem BinaryOp.brace_symbol (op : BinaryOp) : op.symbol.brace = 0 := by
  cases op <;> rfl

namespace Written

mutual

theorem braces_lexemes : ∀ w : Written, braces w.lexemes = 0
  | .number _ | .string _ => rfl
  | .truth value => by cases value <;> rfl
  | .loc l => l.braces_lexemes
  | .assign lhs rhs => by
    simp [lexemes, lhs.braces_lexemes, braces_lexemes rhs]
  | .call callee args => by
    simp [lexemes, braces_argumentLexemes args]
  | .unary op operand => by simp [lexemes, braces_lexemes operand]
  | .binary op left right => by
    simp [lexemes, braces_lexemes left, braces_lexemes right]
  | .parens inner => by
    simp [lexemes, braces_lexemes inner]

theorem braces_argumentLexemes : ∀ ws : List Written, braces (argumentLexemes ws) = 0
  | [] => rfl
  | w :: rest => by simp [argumentLexemes, braces_lexemes w, braces_moreLexemes rest]

theorem braces_moreLexemes : ∀ ws : List Written, braces (moreLexemes ws) = 0
  | [] => rfl
  | w :: rest => by
    simp [moreLexemes, braces_lexemes w, braces_moreLexemes rest]

end

end Written

end Cmm

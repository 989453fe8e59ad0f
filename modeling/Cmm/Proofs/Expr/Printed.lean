import Cmm.Node.Printer
import Cmm.Proofs.Expr.Written
import Cmm.Proofs.Node.Layout

/-!
# Expressions as they are printed

The printer puts parentheses around every binary expression and around some operands besides.
None that is needed is missing, the text of an expression spells it, and each level of a tree costs
three levels of nesting at most.
-/

namespace Cmm

open Layout (Spells)

/-! ## The printed form -/

namespace Expr

def isAssign : Expr → Bool
  | .assign .. => true
  | _ => false

def isUnary : Expr → Bool
  | .unary .. => true
  | _ => false

end Expr

def Written.inParens (parens : Bool) (w : Written) : Written := if parens then .parens w else w

mutual

def Expr.printed : Expr → Written
  | .number value _ => .number value
  | .string raw _ => .string raw
  | .truth value _ => .truth value
  | .loc l => .loc l
  | .assign lhs rhs _ => .assign lhs rhs.printed
  | .call callee args _ => .call callee.text (Expr.allPrinted args)
  | .unary op operand _ =>
    .unary op (operand.printed.inParens (operand.isAssign || operand.isUnary))
  | .binary op left right _ =>
    .parens (.binary op (left.printed.inParens left.isAssign)
      (right.printed.inParens (op = .equals || right.isAssign)))

def Expr.allPrinted : List Expr → List Written
  | [] => []
  | e :: rest => e.printed :: Expr.allPrinted rest

end

namespace Written

variable {w : Written} {parens : Bool}

@[simp] theorem tree_inParens : (w.inParens parens).tree = w.tree := by
  cases parens <;> rfl

theorem proper_inParens : (w.inParens parens).Proper ↔ w.Proper := by
  cases parens <;> rfl

theorem nesting_inParens_le (w : Written) (parens : Bool) :
    (w.inParens parens).nesting ≤ 1 + w.nesting := by
  cases parens
  · exact Nat.le_add_left _ _
  · exact Nat.le_refl _

end Written

namespace Expr

mutual

theorem tree_printed : ∀ e : Expr, e.printed.tree = e.unplaced
  | .number .. | .string .. | .truth .. | .loc _ => rfl
  | .assign lhs rhs _ => by
    simp only [printed, Written.tree, unplaced, tree_printed rhs]
  | .call callee args _ => by
    simp only [printed, Written.tree, unplaced, trees_allPrinted args, Name.unplaced]
  | .unary op operand _ => by
    simp only [printed, Written.tree, unplaced, Written.tree_inParens, tree_printed operand]
  | .binary op left right _ => by
    simp only [printed, Written.tree, unplaced, Written.tree_inParens, tree_printed left,
      tree_printed right]

theorem trees_allPrinted : ∀ es : List Expr, Written.trees (allPrinted es) = allUnplaced es
  | [] => rfl
  | e :: rest => by
    simp only [allPrinted, Written.trees, allUnplaced, tree_printed e, trees_allPrinted rest]

end

theorem isBinary_printed (e : Expr) (parens : Bool) : (e.printed.inParens parens).isBinary = false := by
  cases parens <;> cases e <;> rfl

/-- Of the printed expressions only assignments end in one: those below operators stand in
parentheses. -/
theorem endsInAssignment_printed (e : Expr) : e.printed.endsInAssignment = e.isAssign := by
  cases e with
  | unary op operand p => cases operand <;> rfl
  | _ => rfl

theorem endsInAssignment_inParens {e : Expr} {parens : Bool} (h : e.isAssign = true → parens = true) :
    (e.printed.inParens parens).endsInAssignment = false := by
  cases parens with
  | true => rfl
  | false =>
      change e.printed.endsInAssignment = false
      rw [e.endsInAssignment_printed]
      simpa using h

mutual

theorem proper_printed : ∀ e : Expr, e.printed.Proper
  | .number .. | .string .. | .truth .. | .loc _ => trivial
  | .assign _ rhs _ => proper_printed rhs
  | .call _ args _ => allProper_printed args
  | .unary _ operand _ =>
    ⟨Written.proper_inParens.2 (proper_printed operand), isBinary_printed operand _⟩
  | .binary op left right _ => by
    have hprecedence := Written.precedence_lt_seven op
    refine ⟨Written.proper_inParens.2 (proper_printed left),
      Written.proper_inParens.2 (proper_printed right), ?_, ?_, endsInAssignment_inParens id⟩
    · rw [Written.level_of_not_isBinary (isBinary_printed left _)]
      omega
    · rw [Written.level_of_not_isBinary (isBinary_printed right _)]
      exact hprecedence

theorem allProper_printed : ∀ es : List Expr, Written.AllProper (allPrinted es)
  | [] => trivial
  | e :: rest => ⟨proper_printed e, allProper_printed rest⟩

end

mutual

/-- Below its topmost one, each level of a tree opens three levels of nesting at most. -/
theorem nesting_printed_le : ∀ e : Expr, e.printed.nesting + 3 ≤ 3 * e.height
  | .number .. | .string .. | .truth .. => by simp [printed, Written.nesting, height]
  | .loc l => by
    have := l.one_le_height
    simp only [printed, Written.nesting, height]
    omega
  | .assign _ rhs _ => by
    have := nesting_printed_le rhs
    simp only [printed, Written.nesting, height]
    omega
  | .call _ args _ => by
    have := argumentNesting_printed_le args
    simp only [printed, Written.nesting, height]
    omega
  | .unary _ operand _ => by
    have := nesting_printed_le operand
    have := operand.printed.nesting_inParens_le (operand.isAssign || operand.isUnary)
    simp only [printed, Written.nesting, height]
    omega
  | .binary op left right _ => by
    have := nesting_printed_le left
    have := nesting_printed_le right
    have := left.printed.nesting_inParens_le left.isAssign
    have := right.printed.nesting_inParens_le (op = .equals || right.isAssign)
    simp only [printed, Written.nesting, height]
    omega

theorem argumentNesting_printed_le : ∀ es : List Expr,
    Written.argumentNesting (allPrinted es) ≤ 3 * greatestHeight es
  | [] => Nat.zero_le _
  | e :: rest => by
    have := nesting_printed_le e
    have := argumentNesting_printed_le rest
    simp only [allPrinted, Written.argumentNesting, greatestHeight]
    omega

end

end Expr

/-! ## Leaves -/

def Loc.leaves : Loc → List Lexeme
  | .name id => [.name id.text]
  | .field loc id _ => loc.leaves ++ [.name id.text]

mutual

def Expr.leaves : Expr → List Lexeme
  | .number value _ => [.number value]
  | .string raw _ => [.string raw]
  | .truth .. => []
  | .loc l => l.leaves
  | .assign lhs rhs _ => lhs.leaves ++ rhs.leaves
  | .call callee args _ => .name callee.text :: Expr.allLeaves args
  | .unary _ operand _ => operand.leaves
  | .binary _ left right _ => left.leaves ++ right.leaves

def Expr.allLeaves : List Expr → List Lexeme
  | [] => []
  | e :: rest => e.leaves ++ Expr.allLeaves rest

end

/-! ## The text -/

theorem endsWord_of_mem {c : Char} (h : c ∈ ['.', '(', ')', ',', ' ', ';', '+', '-']) : EndsWord c := by
  have hnone : ['.', '(', ')', ',', ' ', ';', '+', '-'].any isWordPart = false := by decide
  exact Bool.eq_false_iff.2 (List.any_eq_false.1 hnone c h)

theorem spells_between {items : List Layout.Item} {ls : List Lexeme} (h : Spells items ls EndsWord) :
    Spells (.text "(" :: (items ++ [.text ")"]))
      (.ofSymbol .leftParen :: (ls ++ [.ofSymbol .rightParen])) EndsWord := by
  have hopen : Spells [.text "("] [.ofSymbol .leftParen] fun _ => True :=
    .text (spelled_punctuation .leftParen (by decide))
  have hclose : Spells [.text ")"] [.ofSymbol .rightParen] fun _ => True :=
    .text (spelled_punctuation .rightParen (by decide))
  exact hopen.before (h.beforeHead (hclose.mono fun _ _ => trivial) rfl (endsWord_of_mem (by decide)))

@[simp] theorem Node.inParens_false (items : List Layout.Item) : inParens false items = items :=
  rfl

theorem Node.expression_eq_inParens (n : Node) (parens : Bool) :
    n.expression parens = inParens parens (n.expression false) := by
  cases n <;> simp [Node.expression, Node.inParens]

theorem spells_operand {n : Node} {w : Written} (h : Spells (n.expression false) w.lexemes EndsWord)
    (parens : Bool) : Spells (n.expression parens) (w.inParens parens).lexemes EndsWord := by
  rw [Node.expression_eq_inParens]
  cases parens with
  | false => exact h
  | true => exact spells_between h

@[simp] theorem Loc.isAssign_toNode (l : Loc) : l.toNode.isAssign = false := by
  cases l <;> rfl

@[simp] theorem Loc.isUnary_toNode (l : Loc) : l.toNode.isUnary = false := by
  cases l <;> rfl

@[simp] theorem Expr.isAssign_toNode (e : Expr) : e.toNode.isAssign = e.isAssign := by
  cases e with
  | loc l => simp [Expr.toNode, Expr.isAssign]
  | _ => simp [Expr.toNode, Node.isAssign, Expr.isAssign]

@[simp] theorem Expr.isUnary_toNode (e : Expr) : e.toNode.isUnary = e.isUnary := by
  cases e with
  | loc l => simp [Expr.toNode, Expr.isUnary]
  | _ => simp [Expr.toNode, Node.isUnary, Expr.isUnary]

theorem spells_name (id : Name) (h : (Lexeme.name id.text).Scannable) :
    Spells (id.toNode.expression false) [.name id.text] EndsWord := by
  rw [Name.toNode, Node.expression]
  exact .text (spelled_name h)

theorem spells_loc (l : Loc) (h : ∀ x ∈ l.leaves, x.Scannable) :
    Spells (l.toNode.expression false) l.lexemes EndsWord := by
  induction l with
  | name id => exact spells_name id (h _ (by simp [Loc.leaves]))
  | field l id p ih =>
      simp only [Loc.leaves, List.forall_mem_append, List.forall_mem_cons] at h
      obtain ⟨hpath, hid, -⟩ := h
      rw [Loc.toNode, Node.expression]
      have hdot : Spells [.text "."] [.ofSymbol .dot] fun _ => True :=
        .text (spelled_punctuation .dot (by decide))
      exact (ih hpath).beforeHead (hdot.before (spells_name id hid)) rfl (endsWord_of_mem (by decide))

theorem UnaryOp.endsBefore (op : UnaryOp) {d : Char} (hminus : d ≠ '-') (hequals : d ≠ '=') :
    op.symbol.EndsBefore d := by
  intro c hc
  refine ⟨Symbol.ofPair?_eq_none fun other hother => ?_, ?_⟩
  · cases op <;> cases hc <;> cases other <;> cases hother <;> contradiction
  · cases op <;> cases hc <;> rfl

/-- A character that makes no other symbol of a unary operator in front of it. -/
def Separate (c : Char) : Prop := c ≠ '-' ∧ c ≠ '='

theorem separate_of_isWordStart {c : Char} (h : isWordStart c = true) : Separate c := by
  constructor <;> rintro rfl <;> revert h <;> decide

theorem chars_name {id : Name} (h : (Lexeme.name id.text).Scannable) :
    ∃ c more, Layout.chars (id.toNode.expression false) = c :: more ∧ Separate c := by
  obtain ⟨⟨c, more, htext, hc, -⟩, -⟩ := h
  exact ⟨c, more, by simp [Name.toNode, Node.expression, Node.inParens, Layout.chars,
    Layout.Item.chars, htext], separate_of_isWordStart hc⟩

theorem chars_append {items : List Layout.Item} (rest : List Layout.Item)
    (h : ∃ c more, Layout.chars items = c :: more ∧ Separate c) :
    ∃ c more, Layout.chars (items ++ rest) = c :: more ∧ Separate c := by
  obtain ⟨c, more, hitems, hc⟩ := h
  refine ⟨c, more ++ Layout.chars rest, ?_, hc⟩
  rw [Layout.chars, List.flatMap_append, ← Layout.chars, hitems]
  rfl

theorem chars_loc (l : Loc) (h : ∀ x ∈ l.leaves, x.Scannable) :
    ∃ c more, Layout.chars (l.toNode.expression false) = c :: more ∧ Separate c := by
  induction l with
  | name id => exact chars_name (h _ (by simp [Loc.leaves]))
  | field l id p ih =>
      rw [Loc.toNode, Node.expression]
      exact chars_append _ (ih fun x hx => h x (List.mem_append_left _ hx))

/-- What is no unary expression begins with a character that stands by itself behind a unary
operator. -/
theorem chars_expression {e : Expr} (hunary : e.isUnary = false)
    (h : ∀ x ∈ e.leaves, x.Scannable) :
    ∃ c more, Layout.chars (e.toNode.expression false) = c :: more ∧ Separate c := by
  cases e with
  | number value p =>
      obtain ⟨hlow, -⟩ := h (.number value) (by simp [Expr.leaves])
      obtain ⟨n, rfl⟩ := Int.eq_ofNat_of_zero_le hlow
      cases hdigits : Nat.toDigits 10 n with
      | nil => exact absurd hdigits Nat.toDigits_ne_nil
      | cons c more =>
          have hc : c.isDigit = true := Nat.isDigit_of_mem_toDigits (b := 10) (n := n) (by decide)
            (by decide) (by simp [hdigits])
          refine ⟨c, more, ?_, ?_, ?_⟩
          · rw [Expr.toNode, Node.expression, Node.inParens_false]
            simp only [Layout.chars, Layout.Item.chars, List.flatMap_singleton]
            exact (toList_toString_natCast n).trans hdigits
          · rintro rfl
            cases hc
          · rintro rfl
            cases hc
  | string raw p =>
      obtain ⟨body, htext, -⟩ := h (.string raw) (by simp [Expr.leaves])
      exact ⟨'"', body, by simp [Expr.toNode, Node.expression, Node.inParens, Layout.chars,
        Layout.Item.chars, htext], by decide, by decide⟩
  | truth value p =>
      cases value
      · exact ⟨'f', _, rfl, by decide, by decide⟩
      · exact ⟨'t', _, rfl, by decide, by decide⟩
  | loc l => exact chars_loc l h
  | assign lhs rhs p =>
      rw [Expr.toNode, Node.expression]
      exact chars_append _ (chars_loc lhs fun x hx => h x (List.mem_append_left _ hx))
  | call callee args p =>
      rw [Expr.toNode, Node.expression]
      exact chars_append _ (chars_append _ (chars_name (h _ (by simp [Expr.leaves]))))
  | unary op operand p => cases hunary
  | binary op left right p =>
      rw [Expr.toNode, Node.expression]
      exact ⟨'(', _, rfl, by decide, by decide⟩

/-- The operand of a unary operator stands in parentheses if it is a unary expression itself. -/
theorem chars_operand (e : Expr) (h : ∀ x ∈ e.leaves, x.Scannable) :
    ∃ c more, Layout.chars (e.toNode.expression (e.isAssign || e.isUnary)) = c :: more ∧
      Separate c := by
  rw [Node.expression_eq_inParens]
  cases hparens : e.isAssign || e.isUnary with
  | true => exact ⟨'(', _, rfl, by decide, by decide⟩
  | false =>
      obtain ⟨-, hunary⟩ := Bool.or_eq_false_iff.1 hparens
      exact chars_expression hunary h

mutual

/-- The text of an expression spells it, if its leaves can be scanned. -/
theorem spells_expression : ∀ e : Expr, (∀ x ∈ e.leaves, x.Scannable) →
    Spells (e.toNode.expression false) e.printed.lexemes EndsWord
  | .number value p, h => by
    rw [Expr.toNode, Node.expression]
    exact .text (spelled_number (h _ (by simp [Expr.leaves])))
  | .string raw p, h => by
    rw [Expr.toNode, Node.expression]
    exact .mono (.text (spelled_string (h _ (by simp [Expr.leaves])))) fun _ _ => trivial
  | .truth value p, h => by
    rw [Expr.toNode, Node.expression]
    cases value
    · exact .text (spelled_keyword .falseWord)
    · exact .text (spelled_keyword .trueWord)
  | .loc l, h => by
    rw [Expr.toNode]
    exact spells_loc l h
  | .assign lhs rhs p, h => by
    simp only [Expr.leaves, List.forall_mem_append] at h
    rw [Expr.toNode, Node.expression]
    have hsign : Spells [.text " = "] [.ofSymbol .assign] fun _ => True :=
      .text (spelled_blank.before (spelled_symbol_blank .assign))
    exact (spells_loc lhs h.1).beforeHead (hsign.before (spells_expression rhs h.2)) rfl
      endsWord_blank
  | .call callee args p, h => by
    simp only [Expr.leaves, List.forall_mem_cons] at h
    have hargs := spells_between (spells_arguments args h.2)
    have hcall := (spells_name callee h.1).beforeHead hargs rfl (endsWord_of_mem (by decide))
    simpa [Expr.toNode, Node.expression, Node.arguments, Node.inParens, Expr.printed,
      Written.lexemes] using hcall
  | .unary op operand p, h => by
    have hoperand : Spells (operand.toNode.expression (operand.isAssign || operand.isUnary))
        (operand.printed.inParens (operand.isAssign || operand.isUnary)).lexemes EndsWord :=
      spells_operand (spells_expression operand h) _
    have hop : Spells [.text op.spelling] [.ofSymbol op.symbol] op.symbol.EndsBefore :=
      .text (spelled_symbol op.symbol)
    obtain ⟨c, more, hchars, hminus, hequals⟩ := chars_operand operand h
    have hwhole := hop.beforeHead hoperand hchars (op.endsBefore hminus hequals)
    simpa [Expr.toNode, Node.expression, Expr.printed, Written.lexemes] using hwhole
  | .binary op left right p, h => by
    simp only [Expr.leaves, List.forall_mem_append] at h
    have hleft := spells_operand (spells_expression left h.1) left.isAssign
    have hright := spells_operand (spells_expression right h.2) (op = .equals || right.isAssign)
    have hop : Spells [.text (" " ++ op.spelling ++ " ")] [.ofSymbol op.symbol] fun _ => True := by
      refine .text ?_
      simp only [String.toList_append, List.append_assoc]
      exact spelled_blank.before (spelled_symbol_blank op.symbol)
    have hwhole := spells_between (hleft.beforeHead (hop.before hright)
      (by simp [Layout.chars, Layout.Item.chars]; exact rfl) endsWord_blank)
    simpa [Expr.toNode, Node.expression, Expr.printed, Written.lexemes] using hwhole

theorem spells_arguments : ∀ es : List Expr, (∀ x ∈ Expr.allLeaves es, x.Scannable) →
    Spells (Node.commaSeparated (Node.expressions (Expr.toNodes es)))
      (Written.argumentLexemes (Expr.allPrinted es)) EndsWord
  | [], _ => .nil
  | [e], h => by
    simp only [Expr.allLeaves, List.append_nil] at h
    have he := spells_expression e h
    simpa [Expr.toNodes, Node.expressions, Node.commaSeparated, Expr.allPrinted,
      Written.argumentLexemes, Written.moreLexemes] using he
  | e :: e' :: rest, h => by
    have h' : (∀ x ∈ e.leaves, x.Scannable) ∧ ∀ x ∈ Expr.allLeaves (e' :: rest), x.Scannable := by
      rw [Expr.allLeaves, List.forall_mem_append] at h
      exact h
    have hcomma : Spells [.text ", "] [.ofSymbol .comma] fun _ => True :=
      .text (spelled_symbol_blank .comma)
    exact (spells_expression e h'.1).beforeHead (hcomma.before (spells_arguments (e' :: rest) h'.2))
      rfl (endsWord_of_mem (by decide))

end

end Cmm

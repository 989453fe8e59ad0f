import Cmm.Proofs.Expr.Unplaced
import Cmm.Proofs.Token.Plain

/-!
# Expressions as they are written

An expression can be written with more or fewer parentheses, and some of them cannot be left out.
A written expression has a node for each pair of parentheses; forgetting those gives a tree.
-/

namespace Cmm

/-! ## Written expressions -/

def Loc.lexemes : Loc → List Lexeme
  | .name id => [.name id.text]
  | .field loc id _ => loc.lexemes ++ [.ofSymbol .dot, .name id.text]

theorem Loc.exists_lexemes_eq_cons (l : Loc) : ∃ text ls, l.lexemes = .name text :: ls := by
  induction l with
  | name id => exact ⟨id.text, [], rfl⟩
  | field l id p ih =>
      obtain ⟨text, ls, hl⟩ := ih
      exact ⟨text, _, by rw [lexemes, hl, List.cons_append]⟩

theorem Loc.one_le_length_lexemes (l : Loc) : 1 ≤ l.lexemes.length := by
  cases l <;> simp [Loc.lexemes]

theorem Loc.height_le_length_lexemes (l : Loc) : l.height ≤ l.lexemes.length := by
  induction l with
  | name id => exact Nat.le_refl 1
  | field loc id p ih =>
      simp only [Loc.height, Loc.lexemes, List.length_append, List.length_cons, List.length_nil]
      omega

inductive Written where
  | number (value : Int)
  | string (raw : String)
  | truth (value : Bool)
  | loc (loc : Loc)
  | assign (lhs : Loc) (rhs : Written)
  | call (callee : String) (args : List Written)
  | unary (op : UnaryOp) (operand : Written)
  | binary (op : BinaryOp) (left right : Written)
  | parens (inner : Written)

namespace Written

mutual

def tree : Written → Expr
  | .number value => .number value .start
  | .string raw => .string raw .start
  | .truth value => .truth value .start
  | .loc l => .loc l.unplaced
  | .assign lhs rhs => .assign lhs.unplaced rhs.tree .start
  | .call callee args => .call ⟨callee, .start⟩ (trees args) .start
  | .unary op operand => .unary op operand.tree .start
  | .binary op left right => .binary op left.tree right.tree .start
  | .parens inner => inner.tree

def trees : List Written → List Expr
  | [] => []
  | w :: rest => w.tree :: trees rest

end

mutual

def lexemes : Written → List Lexeme
  | .number value => [.number value]
  | .string raw => [.string raw]
  | .truth value => [.ofKeyword (if value then .trueWord else .falseWord)]
  | .loc l => l.lexemes
  | .assign lhs rhs => lhs.lexemes ++ .ofSymbol .assign :: rhs.lexemes
  | .call callee args =>
    .name callee :: .ofSymbol .leftParen :: (argumentLexemes args ++ [.ofSymbol .rightParen])
  | .unary op operand => .ofSymbol op.symbol :: operand.lexemes
  | .binary op left right => left.lexemes ++ .ofSymbol op.symbol :: right.lexemes
  | .parens inner => .ofSymbol .leftParen :: (inner.lexemes ++ [.ofSymbol .rightParen])

def argumentLexemes : List Written → List Lexeme
  | [] => []
  | w :: rest => w.lexemes ++ moreLexemes rest

def moreLexemes : List Written → List Lexeme
  | [] => []
  | w :: rest => .ofSymbol .comma :: (w.lexemes ++ moreLexemes rest)

end

/-- How tightly an expression holds together: a binary one as its operator does, any other one more
tightly than every operator. -/
def level : Written → Int
  | .binary op .. => op.precedence
  | _ => 7

def isBinary : Written → Bool
  | .binary .. => true
  | _ => false

def endsInAssignment : Written → Bool
  | .assign .. => true
  | .unary _ operand => operand.endsInAssignment
  | .binary _ _ right => right.endsInAssignment
  | _ => false

mutual

/-- No parentheses are missing: a binary expression stands without them only where its operator is
not weaker than the one it is an operand of, on the right of which it has to be stronger, and never
below a unary operator; and what ends in an assignment stands without them only at the end. -/
def Proper : Written → Prop
  | .assign _ rhs => rhs.Proper
  | .call _ args => AllProper args
  | .unary _ operand => operand.Proper ∧ operand.isBinary = false
  | .binary op left right =>
    left.Proper ∧ right.Proper ∧ op.precedence ≤ left.level ∧ op.precedence < right.level ∧
      left.endsInAssignment = false
  | .parens inner => inner.Proper
  | _ => True

def AllProper : List Written → Prop
  | [] => True
  | w :: rest => w.Proper ∧ AllProper rest

end

/-- An expression begins with nothing that can stand in its place. -/
theorem exists_lexemes_eq_cons : ∀ w : Written, ∃ l ls, w.lexemes = l :: ls ∧
    l.kind ∉ [.symbol .rightParen, .symbol .semicolon]
  | .number _ | .string _ | .truth _ | .call .. | .parens _ =>
    ⟨_, _, rfl, by simp [Lexeme.kind, Lexeme.ofKeyword, Lexeme.ofSymbol]⟩
  | .loc l => by
    obtain ⟨text, ls, hl⟩ := l.exists_lexemes_eq_cons
    exact ⟨_, ls, hl, by simp [Lexeme.kind]⟩
  | .assign lhs rhs => by
    obtain ⟨text, ls, hl⟩ := lhs.exists_lexemes_eq_cons
    exact ⟨_, _, by rw [lexemes, hl, List.cons_append], by simp [Lexeme.kind]⟩
  | .unary op operand => ⟨_, _, rfl, by cases op <;> decide⟩
  | .binary op left right => by
    obtain ⟨l, ls, hl, hk⟩ := exists_lexemes_eq_cons left
    exact ⟨l, _, by rw [lexemes, hl, List.cons_append], hk⟩

def lastLoc? : Written → Option Loc
  | .loc l => some l
  | .assign _ rhs => rhs.lastLoc?
  | .unary _ operand => operand.lastLoc?
  | .binary _ _ right => right.lastLoc?
  | _ => none

def locGoesOn (w : Written) (k : Kind) : Bool :=
  match w.lastLoc? with
  | none => false
  | some (.name _) => k ∈ [.symbol .dot, .symbol .assign, .symbol .leftParen]
  | some (.field ..) => k ∈ [.symbol .dot, .symbol .assign]

/-- Whether an expression would go on with a token of a kind behind it. -/
def goesOn (w : Written) (k : Kind) : Bool := (BinaryOp.ofKind? k).isSome || w.locGoesOn k

mutual

def nesting : Written → Nat
  | .assign _ rhs => 1 + rhs.nesting
  | .call _ args => argumentNesting args
  | .unary _ operand => 1 + operand.nesting
  | .binary _ left right => max left.nesting (1 + right.nesting)
  | .parens inner => 1 + inner.nesting
  | _ => 0

def argumentNesting : List Written → Nat
  | [] => 0
  | w :: rest => max (1 + w.nesting) (argumentNesting rest)

end

/-! ## Sizes -/

theorem precedence_lt_seven (op : BinaryOp) : op.precedence < 7 := by
  cases op <;> decide

theorem one_le_precedence (op : BinaryOp) : 1 ≤ op.precedence := by
  cases op <;> decide

theorem one_le_level (w : Written) : 1 ≤ w.level := by
  cases w <;> simp [level, one_le_precedence]

theorem level_of_not_isBinary {w : Written} (h : w.isBinary = false) : w.level = 7 := by
  cases w <;> first | rfl | cases h

mutual

/-- Every expression on the longest chain is written with a token of its own. -/
theorem height_tree_le : ∀ w : Written, w.tree.height ≤ w.lexemes.length
  | .number _ | .string _ | .truth _ => by simp [tree, lexemes, Expr.height]
  | .loc l => by simpa [tree, lexemes, Expr.height] using l.height_le_length_lexemes
  | .assign lhs rhs => by
    have hl := lhs.height_le_length_lexemes
    have hr := height_tree_le rhs
    simp only [tree, lexemes, Expr.height, Loc.height_unplaced, List.length_append,
      List.length_cons]
    omega
  | .call _ args => by
    have h := greatestHeight_trees_le args
    simp only [tree, lexemes, Expr.height, List.length_append, List.length_cons, List.length_nil]
    omega
  | .unary _ operand => by
    have h := height_tree_le operand
    simp only [tree, lexemes, Expr.height, List.length_cons]
    omega
  | .binary _ left right => by
    have hl := height_tree_le left
    have hr := height_tree_le right
    simp only [tree, lexemes, Expr.height, List.length_append, List.length_cons]
    omega
  | .parens inner => by
    have h := height_tree_le inner
    simp only [tree, lexemes, List.length_append, List.length_cons]
    omega

theorem greatestHeight_trees_le :
    ∀ ws : List Written, Expr.greatestHeight (trees ws) ≤ (argumentLexemes ws).length
  | [] => Nat.le_refl 0
  | w :: rest => by
    have hw := height_tree_le w
    have hrest := greatestHeight_trees_le_more rest
    simp only [trees, argumentLexemes, Expr.greatestHeight, List.length_append]
    omega

theorem greatestHeight_trees_le_more :
    ∀ ws : List Written, Expr.greatestHeight (trees ws) ≤ (moreLexemes ws).length
  | [] => Nat.le_refl 0
  | w :: rest => by
    have hw := height_tree_le w
    have hrest := greatestHeight_trees_le_more rest
    simp only [trees, moreLexemes, Expr.greatestHeight, List.length_append, List.length_cons]
    omega

end

mutual

/-- Every level of nesting is opened by a token of its own. -/
theorem nesting_lt : ∀ w : Written, w.nesting < w.lexemes.length
  | .number _ | .string _ | .truth _ => by simp [nesting, lexemes]
  | .loc l => l.one_le_length_lexemes
  | .assign lhs rhs => by
    have hl := lhs.one_le_length_lexemes
    have hr := nesting_lt rhs
    simp only [nesting, lexemes, List.length_append, List.length_cons]
    omega
  | .call _ args => by
    have h := argumentNesting_le args
    simp only [nesting, lexemes, List.length_append, List.length_cons, List.length_nil]
    omega
  | .unary _ operand => by
    have h := nesting_lt operand
    simp only [nesting, lexemes, List.length_cons]
    omega
  | .binary _ left right => by
    have hl := nesting_lt left
    have hr := nesting_lt right
    simp only [nesting, lexemes, List.length_append, List.length_cons]
    omega
  | .parens inner => by
    have h := nesting_lt inner
    simp only [nesting, lexemes, List.length_append, List.length_cons]
    omega

theorem argumentNesting_le :
    ∀ ws : List Written, argumentNesting ws ≤ (argumentLexemes ws).length
  | [] => Nat.le_refl 0
  | w :: rest => by
    have hw := nesting_lt w
    have hrest := argumentNesting_le_more rest
    simp only [argumentNesting, argumentLexemes, List.length_append]
    omega

theorem argumentNesting_le_more :
    ∀ ws : List Written, argumentNesting ws ≤ (moreLexemes ws).length
  | [] => Nat.le_refl 0
  | w :: rest => by
    have hw := nesting_lt w
    have hrest := argumentNesting_le_more rest
    simp only [argumentNesting, moreLexemes, List.length_append, List.length_cons]
    omega

end

/-- An expression is written without missing parentheses as some tokens. -/
structure Writes (w : Written) (e : Expr) (u : List Token) : Prop where
  proper : w.Proper
  tree : w.tree = e.unplaced
  lexemes : u.map Token.plain = w.lexemes

theorem Writes.height_le {w : Written} {e : Expr} {u : List Token} (h : w.Writes e u) :
    e.height ≤ u.length := by
  have hw := w.height_tree_le
  rw [h.tree, Expr.height_unplaced, ← h.lexemes, List.length_map] at hw
  exact hw

end Written

end Cmm

import Cmm.Node.Equality
import Cmm.Syntax.Expr

/-!
# Expressions without positions

Two expressions are the same up to positions if they are equal once every position is forgotten.
-/

namespace Cmm

def Name.unplaced (id : Name) : Name := ⟨id.text, .start⟩

def Loc.unplaced : Loc → Loc
  | .name id => .name id.unplaced
  | .field loc id _ => .field loc.unplaced id.unplaced .start

mutual

/-- The expression with the same position everywhere. -/
def Expr.unplaced : Expr → Expr
  | .number value _ => .number value .start
  | .string raw _ => .string raw .start
  | .truth value _ => .truth value .start
  | .loc l => .loc l.unplaced
  | .assign lhs rhs _ => .assign lhs.unplaced rhs.unplaced .start
  | .call callee args _ => .call callee.unplaced (Expr.allUnplaced args) .start
  | .unary op operand _ => .unary op operand.unplaced .start
  | .binary op left right _ => .binary op left.unplaced right.unplaced .start

def Expr.allUnplaced : List Expr → List Expr
  | [] => []
  | e :: rest => e.unplaced :: Expr.allUnplaced rest

end

@[simp] theorem Loc.height_unplaced (l : Loc) : l.unplaced.height = l.height := by
  induction l with
  | name id => rfl
  | field loc id p ih => simp only [unplaced, height, ih]

mutual

@[simp] theorem Expr.height_unplaced : ∀ e : Expr, e.unplaced.height = e.height
  | .number .. | .string .. | .truth .. => by simp [Expr.unplaced, Expr.height]
  | .loc l => by simp [Expr.unplaced, Expr.height]
  | .assign lhs rhs _ => by simp [Expr.unplaced, Expr.height, Expr.height_unplaced rhs]
  | .call _ args _ => by
    simp [Expr.unplaced, Expr.height, Expr.greatestHeight_allUnplaced args]
  | .unary _ operand _ => by simp [Expr.unplaced, Expr.height, Expr.height_unplaced operand]
  | .binary _ left right _ => by
    simp [Expr.unplaced, Expr.height, Expr.height_unplaced left, Expr.height_unplaced right]

theorem Expr.greatestHeight_allUnplaced :
    ∀ es : List Expr, Expr.greatestHeight (Expr.allUnplaced es) = Expr.greatestHeight es
  | [] => rfl
  | e :: rest => by
    simp [Expr.allUnplaced, Expr.greatestHeight, Expr.height_unplaced e,
      Expr.greatestHeight_allUnplaced rest]

end

/-! ## Trees -/

theorem Name.sameAs_toNode {i j : Name} (h : i.unplaced = j.unplaced) :
    i.toNode.sameAs j.toNode = true := by
  simpa [Name.toNode, Node.sameAs, Name.unplaced] using h

theorem Loc.sameAs_toNode {l m : Loc} (h : l.unplaced = m.unplaced) :
    l.toNode.sameAs m.toNode = true := by
  induction l generalizing m with
  | name i =>
      cases m with
      | name j => exact Name.sameAs_toNode (Loc.name.inj h)
      | field _ _ _ => cases h
  | field l i p ih =>
      cases m with
      | name j => cases h
      | field m j q =>
          obtain ⟨hl, hi, -⟩ := Loc.field.inj h
          simp only [toNode, Node.sameAs, ih hl, Name.sameAs_toNode hi, Bool.and_self]

mutual

theorem Expr.sameAs_toNode : ∀ e f : Expr, e.unplaced = f.unplaced → e.toNode.sameAs f.toNode = true
  | .number .., .number .., h | .string .., .string .., h | .truth .., .truth .., h => by
    simpa [unplaced, toNode, Node.sameAs] using h
  | .loc l, .loc m, h => Loc.sameAs_toNode (Expr.loc.inj h)
  | .assign l r _, .assign m s _, h => by
    obtain ⟨hl, hr, -⟩ := Expr.assign.inj h
    simp only [toNode, Node.sameAs, Loc.sameAs_toNode hl, sameAs_toNode r s hr, Bool.and_self]
  | .call i es _, .call j fs _, h => by
    obtain ⟨hi, hes, -⟩ := Expr.call.inj h
    simp only [toNode, Node.sameAs, Name.sameAs_toNode hi, allSameAs_toNodes es fs hes,
      decide_true, Bool.and_self]
  | .unary _ e _, .unary _ f _, h => by
    obtain ⟨rfl, he, -⟩ := Expr.unary.inj h
    simp only [toNode, Node.sameAs, sameAs_toNode e f he, decide_true, Bool.and_self]
  | .binary _ l r _, .binary _ m s _, h => by
    obtain ⟨rfl, hl, hr, -⟩ := Expr.binary.inj h
    simp only [toNode, Node.sameAs, sameAs_toNode l m hl, sameAs_toNode r s hr, decide_true,
      Bool.and_self]

theorem Expr.allSameAs_toNodes : ∀ es fs : List Expr, allUnplaced es = allUnplaced fs →
    Node.allSameAs (toNodes es) (toNodes fs) = true
  | [], [], _ => rfl
  | e :: es, f :: fs, h => by
    obtain ⟨he, hes⟩ := List.cons.inj h
    simp only [toNodes, Node.allSameAs, sameAs_toNode e f he, allSameAs_toNodes es fs hes,
      Bool.and_self]

end

end Cmm

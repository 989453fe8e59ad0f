import Cmm.Proofs.Node.Height
import Cmm.Syntax.Program

/-!
# Expressions that are built from others

Those that stand within a tree: where there are any, and which they are for the tree of each part of
a program.
-/

namespace Cmm

namespace Node

/-- A tree within another one: this tree, or a tree within one of its slots. -/
inductive Within (m : Node) : Node → Prop
  | self : Within m m
  | slot {n child : Node} {slot : String} (h : (slot, child) ∈ n.slots) (hm : Within m child) :
    Within m n

theorem within_iff {m n : Node} : m.Within n ↔ m = n ∨ ∃ x ∈ n.slots, m.Within x.2 := by
  constructor
  · intro h
    cases h with
    | self => exact .inl rfl
    | slot hslot hm => exact .inr ⟨_, hslot, hm⟩
  · rintro (rfl | ⟨x, hslot, hm⟩)
    · exact .self
    · exact .slot hslot hm

/-- An expression that is built from others: a field of a location, an assignment, a call, or an
operator with its operands. -/
def isComposite : Node → Bool
  | .dot .. | .assign .. | .call .. | .unary .. | .binary .. => true
  | _ => false

def HasComposite (n m : Node) : Prop := m.Within n ∧ m.isComposite = true

variable {n m : Node} {p : Position}

theorem hasComposite_iff : n.HasComposite m ↔
    (n.isComposite = true ∧ m = n) ∨ ∃ x ∈ n.slots, x.2.HasComposite m := by
  constructor
  · rintro ⟨hwithin, hm⟩
    rcases within_iff.1 hwithin with rfl | ⟨x, hslot, hwithin⟩
    · exact .inl ⟨hm, rfl⟩
    · exact .inr ⟨x, hslot, hwithin, hm⟩
  · rintro (⟨hn, rfl⟩ | ⟨x, hslot, hwithin, hm⟩)
    · exact ⟨.self, hn⟩
    · exact ⟨.slot hslot hwithin, hm⟩

theorem hasComposite_of_isComposite (hn : n.isComposite = true) :
    n.HasComposite m ↔ m = n ∨ ∃ x ∈ n.slots, x.2.HasComposite m := by
  rw [hasComposite_iff, hn]
  simp

theorem hasComposite_of_not_isComposite (hn : n.isComposite = false) :
    n.HasComposite m ↔ ∃ x ∈ n.slots, x.2.HasComposite m := by
  rw [hasComposite_iff, hn]
  simp

theorem not_hasComposite_of_no_slots (hslots : n.slots = []) (hn : n.isComposite = false) :
    ¬n.HasComposite m := by
  simp [hasComposite_of_not_isComposite hn, hslots]

theorem hasComposite_of_slot {child : Node} {slot : String} (hslots : n.slots = [(slot, child)])
    (hn : n.isComposite = false) : n.HasComposite m ↔ child.HasComposite m := by
  simp [hasComposite_of_not_isComposite hn, hslots]

@[simp] theorem not_hasComposite_absent : ¬absent.HasComposite m :=
  not_hasComposite_of_no_slots rfl rfl

@[simp] theorem not_hasComposite_primitive {type : Primitive} :
    ¬(primitive type p).HasComposite m :=
  not_hasComposite_of_no_slots rfl rfl

theorem hasComposite_list {cls : ListClass} {items : List Node} :
    (list cls items p).HasComposite m ↔ ∃ item ∈ items, item.HasComposite m := by
  rw [hasComposite_of_not_isComposite rfl]
  constructor
  · rintro ⟨x, hslot, hm⟩
    exact ⟨x.2, mem_of_mem_slots_list hslot, hm⟩
  · rintro ⟨item, hitem, hm⟩
    obtain ⟨slot, hslot⟩ := exists_mem_slots_list cls p hitem
    exact ⟨_, hslot, hm⟩

theorem hasComposite_list_map {α : Type} {f : α → Node} {cls : ListClass} {as : List α} :
    (list cls (as.map f) p).HasComposite m ↔ ∃ a ∈ as, (f a).HasComposite m := by
  rw [hasComposite_list]
  constructor
  · rintro ⟨item, hitem, hm⟩
    obtain ⟨a, ha, rfl⟩ := List.mem_map.1 hitem
    exact ⟨a, ha, hm⟩
  · rintro ⟨a, ha, hm⟩
    exact ⟨f a, List.mem_map_of_mem ha, hm⟩

end Node

variable {n : Node} {p : Position}

/-! ## Expressions -/

@[simp] theorem Name.not_hasComposite {id : Name} : ¬id.toNode.HasComposite n :=
  Node.not_hasComposite_of_no_slots rfl rfl

@[simp] theorem Loc.not_hasComposite_name {id : Name} : ¬(name id).toNode.HasComposite n :=
  Node.not_hasComposite_of_no_slots rfl rfl

@[simp] theorem Loc.hasComposite_field {l : Loc} {id : Name} :
    (field l id p).toNode.HasComposite n ↔
      n = (field l id p).toNode ∨ l.toNode.HasComposite n := by
  rw [Node.hasComposite_of_isComposite rfl]
  simp [toNode, Node.slots]

namespace Expr

@[simp] theorem not_hasComposite_number {value : Int} : ¬(number value p).toNode.HasComposite n :=
  Node.not_hasComposite_of_no_slots rfl rfl

@[simp] theorem not_hasComposite_string {raw : String} : ¬(string raw p).toNode.HasComposite n :=
  Node.not_hasComposite_of_no_slots rfl rfl

@[simp] theorem not_hasComposite_truth {value : Bool} : ¬(truth value p).toNode.HasComposite n :=
  Node.not_hasComposite_of_no_slots rfl rfl

@[simp] theorem hasComposite_loc {l : Loc} :
    (loc l).toNode.HasComposite n ↔ l.toNode.HasComposite n := .rfl

@[simp] theorem hasComposite_assign {lhs : Loc} {rhs : Expr} :
    (assign lhs rhs p).toNode.HasComposite n ↔
      n = (assign lhs rhs p).toNode ∨ lhs.toNode.HasComposite n ∨ rhs.toNode.HasComposite n := by
  rw [Node.hasComposite_of_isComposite rfl]
  simp [toNode, Node.slots]

@[simp] theorem hasComposite_call {callee : Name} {args : List Expr} :
    (call callee args p).toNode.HasComposite n ↔
      n = (call callee args p).toNode ∨ ∃ e ∈ args, e.toNode.HasComposite n := by
  rw [Node.hasComposite_of_isComposite rfl]
  simp [toNode, Node.slots, toNodes_eq_map, Node.hasComposite_list_map]

@[simp] theorem hasComposite_unary {op : UnaryOp} {operand : Expr} :
    (unary op operand p).toNode.HasComposite n ↔
      n = (unary op operand p).toNode ∨ operand.toNode.HasComposite n := by
  rw [Node.hasComposite_of_isComposite rfl]
  simp [toNode, Node.slots]

@[simp] theorem hasComposite_binary {op : BinaryOp} {left right : Expr} :
    (binary op left right p).toNode.HasComposite n ↔
      n = (binary op left right p).toNode ∨ left.toNode.HasComposite n ∨
        right.toNode.HasComposite n := by
  rw [Node.hasComposite_of_isComposite rfl]
  simp [toNode, Node.slots]

end Expr

/-! ## Declarations and statements -/

@[simp] theorem VariableDecl.not_hasComposite {v : VariableDecl} : ¬v.toNode.HasComposite n := by
  obtain ⟨type, id, q⟩ := v
  have htype : ¬(type.toNode q).HasComposite n := by
    cases type with
    | primitive => exact Node.not_hasComposite_primitive
    | struct id =>
        rw [VariableType.toNode, Node.hasComposite_of_slot rfl rfl]
        exact Name.not_hasComposite
  rw [Node.hasComposite_of_not_isComposite rfl]
  simp [toNode, Node.slots, htype]

@[simp] theorem VariableDecls.not_hasComposite {vs : VariableDecls} :
    ¬vs.toNode.HasComposite n := by
  simp [toNode, Node.hasComposite_list_map]

namespace Stmt

@[simp] theorem hasComposite_assign {a : Assignment} :
    (assign a p).toNode.HasComposite n ↔ a.toNode.HasComposite n :=
  Node.hasComposite_of_slot rfl rfl

@[simp] theorem hasComposite_increment {l : Loc} :
    (increment l p).toNode.HasComposite n ↔ l.toNode.HasComposite n :=
  Node.hasComposite_of_slot rfl rfl

@[simp] theorem hasComposite_decrement {l : Loc} :
    (decrement l p).toNode.HasComposite n ↔ l.toNode.HasComposite n :=
  Node.hasComposite_of_slot rfl rfl

@[simp] theorem hasComposite_read {l : Loc} :
    (read l p).toNode.HasComposite n ↔ l.toNode.HasComposite n :=
  Node.hasComposite_of_slot rfl rfl

@[simp] theorem hasComposite_write {e : Expr} :
    (write e p).toNode.HasComposite n ↔ e.toNode.HasComposite n :=
  Node.hasComposite_of_slot rfl rfl

@[simp] theorem hasComposite_call {c : Call} :
    (call c p).toNode.HasComposite n ↔ c.toNode.HasComposite n :=
  Node.hasComposite_of_slot rfl rfl

@[simp] theorem not_hasComposite_returnNothing : ¬(returnValue none p).toNode.HasComposite n := by
  rw [toNode, Node.hasComposite_of_slot rfl rfl]
  exact Node.not_hasComposite_absent

@[simp] theorem hasComposite_returnValue {e : Expr} :
    (returnValue (some e) p).toNode.HasComposite n ↔ e.toNode.HasComposite n :=
  Node.hasComposite_of_slot rfl rfl

end Stmt

@[simp] theorem Block.not_hasComposite_declsNode {b : Block} : ¬b.declsNode.HasComposite n := by
  cases b
  exact VariableDecls.not_hasComposite

@[simp] theorem Block.hasComposite_stmtsNode {decls : VariableDecls} {stmts : List Stmt} :
    (mk decls stmts p).stmtsNode.HasComposite n ↔ ∃ s ∈ stmts, s.toNode.HasComposite n := by
  rw [stmtsNode, Stmt.toNodes_eq_map, Node.hasComposite_list_map]

namespace Stmt

@[simp] theorem hasComposite_ifThen {condition : Expr} {b : Block} :
    (ifThen condition b p).toNode.HasComposite n ↔
      condition.toNode.HasComposite n ∨ b.stmtsNode.HasComposite n := by
  rw [Node.hasComposite_of_not_isComposite rfl]
  simp [toNode, Node.slots]

@[simp] theorem hasComposite_ifElse {condition : Expr} {b b' : Block} :
    (ifElse condition b b' p).toNode.HasComposite n ↔
      condition.toNode.HasComposite n ∨ b.stmtsNode.HasComposite n ∨
        b'.stmtsNode.HasComposite n := by
  rw [Node.hasComposite_of_not_isComposite rfl]
  simp [toNode, Node.slots]

@[simp] theorem hasComposite_whileLoop {condition : Expr} {b : Block} :
    (whileLoop condition b p).toNode.HasComposite n ↔
      condition.toNode.HasComposite n ∨ b.stmtsNode.HasComposite n := by
  rw [Node.hasComposite_of_not_isComposite rfl]
  simp [toNode, Node.slots]

@[simp] theorem hasComposite_repeatLoop {condition : Expr} {b : Block} :
    (repeatLoop condition b p).toNode.HasComposite n ↔
      condition.toNode.HasComposite n ∨ b.stmtsNode.HasComposite n := by
  rw [Node.hasComposite_of_not_isComposite rfl]
  simp [toNode, Node.slots]

end Stmt

namespace Decl

@[simp] theorem not_hasComposite_variableDecl {v : VariableDecl} :
    ¬(variableDecl v).toNode.HasComposite n :=
  VariableDecl.not_hasComposite

@[simp] theorem not_hasComposite_structDecl {s : StructDecl} :
    ¬(structDecl s).toNode.HasComposite n := by
  rw [toNode, StructDecl.toNode, Node.hasComposite_of_not_isComposite rfl]
  simp [Node.slots]

@[simp] theorem hasComposite_functionDecl {f : FunctionDecl} :
    (functionDecl f).toNode.HasComposite n ↔ f.body.block.stmtsNode.HasComposite n := by
  have hformal : ∀ g : Formal, ¬g.toNode.HasComposite n := by
    intro g
    rw [Formal.toNode, Node.hasComposite_of_not_isComposite rfl]
    simp [Node.slots]
  have hbody : f.body.toNode.HasComposite n ↔ f.body.block.stmtsNode.HasComposite n := by
    rw [Body.toNode, Node.hasComposite_of_not_isComposite rfl]
    simp [Node.slots]
  rw [toNode, FunctionDecl.toNode, Node.hasComposite_of_not_isComposite rfl]
  simp [Node.slots, Formals.toNode, Node.hasComposite_list_map, hformal, hbody]

end Decl

theorem Program.hasComposite_iff {p : Program} :
    p.toNode.HasComposite n ↔ ∃ d ∈ p.decls, d.toNode.HasComposite n := by
  rw [toNode, Node.hasComposite_of_slot rfl rfl, Node.hasComposite_list_map]

end Cmm

import Cmm.Node.Outline
import Cmm.Proofs.Node.Unplaced
import Cmm.Token.Basic
import Mathlib.Data.List.Forall2

/-!
# Trees over paired tokens

Two trees are alike if they differ only in the tokens that they are built from: class by class and
slot by slot the same, with the values and positions of paired tokens at the same places.
-/

namespace Cmm

def Token.Placed (P : Token → Token → Prop) (p q : Position) : Prop :=
  ∃ t u, P t u ∧ t.position = p ∧ u.position = q

namespace Node

variable {P : Token → Token → Prop}

inductive Alike (P : Token → Token → Prop) : Node → Node → Prop
  | absent : Alike P .absent .absent
  | base {p q : Position} (cls : BaseClass) (hp : Token.Placed P p q) :
    Alike P (.base cls p) (.base cls q)
  | primitive {p q : Position} (type : Primitive) (hp : Token.Placed P p q) :
    Alike P (.primitive type p) (.primitive type q)
  | structType {p q : Position} {id id' : Node} (hid : Alike P id id') (hp : Token.Placed P p q) :
    Alike P (.structType id p) (.structType id' q)
  | number {p q : Position} {value value' : Int} (h : P ⟨.number value, p⟩ ⟨.number value', q⟩) :
    Alike P (.number value p) (.number value' q)
  | string {p q : Position} {raw raw' : String} (h : P ⟨.string raw, p⟩ ⟨.string raw', q⟩) :
    Alike P (.string raw p) (.string raw' q)
  | truth {p q : Position} (value : Bool) (hp : Token.Placed P p q) :
    Alike P (.truth value p) (.truth value q)
  | name {p q : Position} {text text' : String} (h : P ⟨.name text, p⟩ ⟨.name text', q⟩) :
    Alike P (.name text p) (.name text' q)
  | dot {p q : Position} {loc loc' id id' : Node} (hloc : Alike P loc loc') (hid : Alike P id id')
      (hp : Token.Placed P p q) : Alike P (.dot loc id p) (.dot loc' id' q)
  | assign {p q : Position} {lhs lhs' exp exp' : Node} (hlhs : Alike P lhs lhs')
      (hexp : Alike P exp exp') (hp : Token.Placed P p q) :
    Alike P (.assign lhs exp p) (.assign lhs' exp' q)
  | call {p q : Position} {id id' args args' : Node} (hid : Alike P id id')
      (hargs : Alike P args args') (hp : Token.Placed P p q) :
    Alike P (.call id args p) (.call id' args' q)
  | unary {p q : Position} (op : Option UnaryOp) {operand operand' : Node}
      (h : Alike P operand operand') (hp : Token.Placed P p q) :
    Alike P (.unary op operand p) (.unary op operand' q)
  | binary {p q : Position} (op : Option BinaryOp) {left left' right right' : Node}
      (hleft : Alike P left left') (hright : Alike P right right') (hp : Token.Placed P p q) :
    Alike P (.binary op left right p) (.binary op left' right' q)
  | list {p q : Position} (cls : ListClass) {items items' : List Node}
      (h : List.Forall₂ (Alike P) items items') (hp : Token.Placed P p q) :
    Alike P (.list cls items p) (.list cls items' q)
  | variableDecl {p q : Position} {type type' id id' : Node} (size : Int)
      (htype : Alike P type type') (hid : Alike P id id') (hp : Token.Placed P p q) :
    Alike P (.variableDecl type id size p) (.variableDecl type' id' size q)
  | formal {p q : Position} {type type' id id' : Node} (htype : Alike P type type')
      (hid : Alike P id id') (hp : Token.Placed P p q) :
    Alike P (.formal type id p) (.formal type' id' q)
  | functionDecl {p q : Position} {type type' id id' formals formals' body body' : Node}
      (htype : Alike P type type') (hid : Alike P id id') (hformals : Alike P formals formals')
      (hbody : Alike P body body') (hp : Token.Placed P p q) :
    Alike P (.functionDecl type id formals body p) (.functionDecl type' id' formals' body' q)
  | functionBody {p q : Position} {decls decls' stmts stmts' : Node} (hdecls : Alike P decls decls')
      (hstmts : Alike P stmts stmts') (hp : Token.Placed P p q) :
    Alike P (.functionBody decls stmts p) (.functionBody decls' stmts' q)
  | structDecl {p q : Position} {id id' decls decls' : Node} (hid : Alike P id id')
      (hdecls : Alike P decls decls') (hp : Token.Placed P p q) :
    Alike P (.structDecl id decls p) (.structDecl id' decls' q)
  | assignment {p q : Position} {exp exp' : Node} (h : Alike P exp exp') (hp : Token.Placed P p q) :
    Alike P (.assignment exp p) (.assignment exp' q)
  | increment {p q : Position} {exp exp' : Node} (h : Alike P exp exp') (hp : Token.Placed P p q) :
    Alike P (.increment exp p) (.increment exp' q)
  | decrement {p q : Position} {exp exp' : Node} (h : Alike P exp exp') (hp : Token.Placed P p q) :
    Alike P (.decrement exp p) (.decrement exp' q)
  | read {p q : Position} {exp exp' : Node} (h : Alike P exp exp') (hp : Token.Placed P p q) :
    Alike P (.read exp p) (.read exp' q)
  | write {p q : Position} {exp exp' : Node} (h : Alike P exp exp') (hp : Token.Placed P p q) :
    Alike P (.write exp p) (.write exp' q)
  | ifThen {p q : Position} {exp exp' decls decls' stmts stmts' : Node} (hexp : Alike P exp exp')
      (hdecls : Alike P decls decls') (hstmts : Alike P stmts stmts') (hp : Token.Placed P p q) :
    Alike P (.ifThen exp decls stmts p) (.ifThen exp' decls' stmts' q)
  | ifElse {p q : Position} {exp exp' decls decls' stmts stmts' others others' more more' : Node}
      (hexp : Alike P exp exp') (hdecls : Alike P decls decls') (hstmts : Alike P stmts stmts')
      (hothers : Alike P others others') (hmore : Alike P more more') (hp : Token.Placed P p q) :
    Alike P (.ifElse exp decls stmts others more p) (.ifElse exp' decls' stmts' others' more' q)
  | whileLoop {p q : Position} {exp exp' decls decls' stmts stmts' : Node} (hexp : Alike P exp exp')
      (hdecls : Alike P decls decls') (hstmts : Alike P stmts stmts') (hp : Token.Placed P p q) :
    Alike P (.whileLoop exp decls stmts p) (.whileLoop exp' decls' stmts' q)
  | repeatLoop {p q : Position} {exp exp' decls decls' stmts stmts' : Node}
      (hexp : Alike P exp exp') (hdecls : Alike P decls decls') (hstmts : Alike P stmts stmts')
      (hp : Token.Placed P p q) :
    Alike P (.repeatLoop exp decls stmts p) (.repeatLoop exp' decls' stmts' q)
  | callStatement {p q : Position} {call call' : Node} (h : Alike P call call')
      (hp : Token.Placed P p q) : Alike P (.callStatement call p) (.callStatement call' q)
  | returnStatement {p q : Position} {exp exp' : Node} (h : Alike P exp exp')
      (hp : Token.Placed P p q) : Alike P (.returnStatement exp p) (.returnStatement exp' q)
  | program {p q : Position} {decls decls' : Node} (h : Alike P decls decls')
      (hp : Token.Placed P p q) : Alike P (.program decls p) (.program decls' q)

abbrev AllAlike (P : Token → Token → Prop) : List Node → List Node → Prop :=
  List.Forall₂ (Alike P)

theorem placed_refl (hP : ∀ t, P t t) (p : Position) : Token.Placed P p p :=
  ⟨.endOfInput p, _, hP _, rfl, rfl⟩

theorem alike_refl (hP : ∀ t, P t t) (n : Node) : Alike P n n := by
  have hp := placed_refl hP
  apply @Node.rec (fun n => Alike P n n) (fun ns => AllAlike P ns ns)
  all_goals
    intros
    constructor <;> first
      | assumption
      | apply hp
      | apply hP

/-! ## What is the same in both trees -/

theorem Alike.height_eq {n m : Node} (h : Alike P n m) : n.height = m.height := by
  apply @Alike.rec P (fun n m _ => n.height = m.height)
    (fun ns ms _ => greatestHeight ns = greatestHeight ms)
  case t => exact h
  case base =>
    intro p q cls _
    cases cls <;> rfl
  case list =>
    intro p q cls items items' _ _ hitems
    cases cls <;> simp [height, hitems]
  all_goals
    intros
    first
      | rfl
      | simp_all [height, greatestHeight]

/-- Paired tokens with the same lexemes make equal trees. -/
theorem Alike.sameAs (hP : ∀ t u, P t u → t.lexeme = u.lexeme) {n m : Node} (h : Alike P n m) :
    n.sameAs m = true := by
  apply @Alike.rec P (fun n m _ => n.sameAs m = true) (fun ns ms _ => allSameAs ns ms = true)
  case t => exact h
  case number | string | name =>
    intro p q v w h
    simpa [Node.sameAs] using hP _ _ h
  all_goals
    intros
    simp_all [Node.sameAs, allSameAs]

theorem placed_eq {p q : Position} : Token.Placed (· = ·) p q ↔ p = q := by
  constructor
  · rintro ⟨t, u, rfl, rfl, rfl⟩
    rfl
  · rintro rfl
    exact placed_refl (fun _ => rfl) p

/-- Where every token is paired with itself only, every tree is like itself only. -/
theorem Alike.eq {n m : Node} (h : Alike (· = ·) n m) : n = m := by
  apply @Alike.rec (· = ·) (fun n m _ => n = m) (fun ns ms _ => ns = ms)
  case t => exact h
  all_goals
    intros
    simp_all only [placed_eq, Token.mk.injEq, Lexeme.number.injEq, Lexeme.string.injEq,
      Lexeme.name.injEq]

/-! ## Row by row -/

def leaf? : Node → Option Token
  | .number value p => some ⟨.number value, p⟩
  | .string raw p => some ⟨.string raw, p⟩
  | .name text p => some ⟨.name text, p⟩
  | _ => none

/-- Two rows show nodes of one class and height in the same slot.  What these hold, names and
literals from paired tokens aside, is the same, and they stand where paired tokens stand. -/
structure Row.Alike (P : Token → Token → Prop) (r s : Row) : Prop where
  depth : r.depth = s.depth
  slot : r.slot = s.slot
  label : r.node.label = s.node.label
  height : r.node.height = s.node.height
  leaf : Option.Rel P r.node.leaf? s.node.leaf?
  payload : r.node.leaf? = none → r.node.payload = s.node.payload
  position : Option.Rel (Token.Placed P) r.node.position? s.node.position?

def SlotAlike (P : Token → Token → Prop) (a b : String × Node) : Prop :=
  a.1 = b.1 ∧ Alike P a.2 b.2

theorem slots_list_alike (cls : ListClass) {items items' : List Node}
    (h : AllAlike P items items') (start : Nat) :
    List.Forall₂ (SlotAlike P)
      ((items.zipIdx start).map fun (item, i) => (s!"{cls.slot}[{i}]", item))
      ((items'.zipIdx start).map fun (item, i) => (s!"{cls.slot}[{i}]", item)) := by
  induction h generalizing start with
  | nil => exact .nil
  | cons hitem _ ih =>
      rw [List.zipIdx_cons, List.zipIdx_cons, List.map_cons, List.map_cons]
      exact .cons ⟨rfl, hitem⟩ (ih (start + 1))

theorem Alike.slots {n m : Node} (h : Alike P n m) :
    List.Forall₂ (SlotAlike P) n.slots m.slots := by
  cases h with
  | list cls h hp => exact slots_list_alike cls h 0
  | _ => simp [Node.slots, SlotAlike, *]

theorem Alike.row {n m : Node} (h : Alike P n m) (depth : Nat) (slot : String) :
    Row.Alike P ⟨depth, slot, n⟩ ⟨depth, slot, m⟩ where
  depth := rfl
  slot := rfl
  label := by
    cases h with
    | truth value hp => cases value <;> rfl
    | unary op h hp => cases op <;> rfl
    | binary op hleft hright hp => cases op <;> rfl
    | _ => rfl
  height := h.height_eq
  leaf := by
    cases h with
    | number h | string h | name h => exact .some h
    | _ => exact .none
  payload := by
    cases h with
    | number h | string h | name h => simp [leaf?]
    | _ => exact fun _ => rfl
  position := by
    cases h with
    | absent => exact .none
    | number h | string h | name h => exact .some ⟨_, _, h, rfl, rfl⟩
    | _ => exact .some (by assumption)

theorem forall₂_flatMap {α β : Type} {R : α → α → Prop} {S : β → β → Prop} {f g : α → List β}
    {xs ys : List α} (h : List.Forall₂ R xs ys)
    (hf : ∀ x ∈ xs, ∀ y, R x y → List.Forall₂ S (f x) (g y)) :
    List.Forall₂ S (xs.flatMap f) (ys.flatMap g) := by
  induction h with
  | nil => exact .nil
  | cons hxy _ ih =>
      rw [List.flatMap_cons, List.flatMap_cons]
      apply List.rel_append
      · exact hf _ (by simp) _ hxy
      · exact ih fun x hx => hf x (List.mem_cons_of_mem _ hx)

theorem Alike.rows_nodes {n m : Node} (h : Alike P n m) (depth : Nat) (slot : String) :
    List.Forall₂ (fun r s : Row => r.depth = s.depth ∧ r.slot = s.slot ∧ Alike P r.node s.node)
      (n.rows depth slot) (m.rows depth slot) := by
  rw [rows_eq, rows_eq]
  apply List.Forall₂.cons ⟨rfl, rfl, h⟩
  apply forall₂_flatMap h.slots
  rintro ⟨slot, child⟩ hmem ⟨slot', child'⟩ ⟨rfl, hchild⟩
  exact hchild.rows_nodes (depth + 1) slot
termination_by sizeOf n
decreasing_by exact sizeOf_lt_of_mem_slots hmem

theorem Alike.rows {n m : Node} (h : Alike P n m) (depth : Nat) (slot : String) :
    List.Forall₂ (Row.Alike P) (n.rows depth slot) (m.rows depth slot) := by
  apply (h.rows_nodes depth slot).imp
  rintro ⟨depth, slot, n⟩ ⟨_, _, m⟩ ⟨rfl, rfl, hnode⟩
  exact hnode.row depth slot

/-! ## Printing -/

/-- Equal trees are alike, whatever their positions. -/
theorem alike_of_sameAs : ∀ n m : Node, n.sameAs m = true →
    Alike (fun t u => t.lexeme = u.lexeme) n m := by
  have hp : ∀ p q, Token.Placed (fun t u => t.lexeme = u.lexeme) p q :=
    fun p q => ⟨.endOfInput p, .endOfInput q, rfl, rfl, rfl⟩
  apply sameAs.induct (fun n m => n.sameAs m = true → Alike (fun t u => t.lexeme = u.lexeme) n m)
    (fun ns ms => allSameAs ns ms = true → AllAlike (fun t u => t.lexeme = u.lexeme) ns ms)
  all_goals
    intros
    simp_all only [Node.sameAs, allSameAs, Bool.and_eq_true, decide_eq_true_eq, reduceCtorEq]
  all_goals
    constructor <;> first
      | apply hp
      | simp_all

theorem forall₂_all_eq {α : Type} {R : α → α → Prop} {p : α → Bool} {xs ys : List α}
    (h : List.Forall₂ R xs ys) (hp : ∀ x y, R x y → p x = p y) : xs.all p = ys.all p := by
  induction h with
  | nil => rfl
  | cons hxy _ ih => rw [List.all_cons, List.all_cons, hp _ _ hxy, ih]

theorem isFlat_eq (n : Node) : n.isFlat = (n.rows 0 "").all fun row => !row.node.opensBlock := by
  rw [isFlat, nodeRows, List.all_filter]
  congr 1
  funext row
  cases row.node <;> rfl

theorem Alike.isFlat_eq {n m : Node} (h : Alike P n m) : n.isFlat = m.isFlat := by
  rw [Node.isFlat_eq, Node.isFlat_eq]
  apply forall₂_all_eq (h.rows_nodes 0 "")
  rintro ⟨_, _, n⟩ ⟨_, _, m⟩ ⟨-, -, hnode⟩
  cases hnode <;> rfl

/-- Equal trees have the same text for every tab width, and also without one. -/
theorem printWith_eq_of_sameAs {n m : Node} (h : n.sameAs m = true) (room : Int)
    (tab : Option Int) : n.printWith room tab = m.printWith room tab := by
  have hitems : ∀ width, n.items width 0 = m.items width 0 := by
    intro width
    rw [← items_unplaced, unplaced_eq_of_sameAs n m h, items_unplaced]
  have hprint : ∀ width, printAll room width 0 [n] = printAll room width 0 [m] := by
    intro width
    simp only [printAll, List.flatMap_cons, List.flatMap_nil, hitems]
  cases tab with
  | some width => exact hprint width
  | none =>
      change (if n.isFlat = true then _ else _) = if m.isFlat = true then _ else _
      rw [(alike_of_sameAs n m h).isFlat_eq, hprint]

end Node

end Cmm

import Cmm.Proofs.Node.Height
import Cmm.Proofs.Node.Indentation

/-!
# Nodes that do not belong

Printing visits the nodes of a tree in the order of the text, each in a role.  It stops at the first
node that does not belong in its role, and if there is none it does not stop, as long as lists stand
where lists are expected.
-/

namespace Cmm

def Role.admits : Role → Node → Bool
  | .root, .program .. | .root, .list .. | .root, .formal .. | .root, .functionBody .. => true
  | .type, .primitive .. | .type, .structType .. => true
  | .declaration, .variableDecl .. | .declaration, .functionDecl ..
  | .declaration, .structDecl .. => true
  | .statement, .assignment .. | .statement, .increment .. | .statement, .decrement ..
  | .statement, .read .. | .statement, .write .. | .statement, .ifThen .. | .statement, .ifElse ..
  | .statement, .whileLoop .. | .statement, .repeatLoop .. | .statement, .callStatement ..
  | .statement, .returnStatement .. => true
  | .expression, .number .. | .expression, .string .. | .expression, .truth ..
  | .expression, .name .. | .expression, .dot .. | .expression, .assign .. | .expression, .call ..
  | .expression, .unary .. | .expression, .binary .. => true
  | _, _ => false

namespace Node

/-! ## Visits -/

def rootRole : Node → Role
  | .primitive .. | .structType .. => .type
  | .variableDecl .. | .functionDecl .. | .structDecl .. => .declaration
  | .base .statement _ | .assignment .. | .increment .. | .decrement .. | .read .. | .write ..
  | .ifThen .. | .ifElse .. | .whileLoop .. | .repeatLoop .. | .callStatement ..
  | .returnStatement .. => .statement
  | .base .expression _ | .number .. | .string .. | .truth .. | .name .. | .dot .. | .assign ..
  | .call .. | .unary .. | .binary .. => .expression
  | _ => .root

def elements : Node → List Node
  | .list _ items _ => items
  | _ => []

def given (role : Role) (n : Node) : List (Role × Node) := if n.isAbsent then [] else [(role, n)]

def blockParts (decls stmts : Node) : List (Role × Node) :=
  decls.elements.map (.declaration, ·) ++ stmts.elements.map (.statement, ·)

def formalParts : Node → List (Role × Node)
  | .formal type id _ => [(.type, type), (.expression, id)]
  | _ => []

def bodyParts : Node → List (Role × Node)
  | .functionBody decls stmts _ => blockParts decls stmts
  | _ => []

/-- The nodes that are visited next below a node, in the order of the text.  Lists, formal
parameters and function bodies are passed through. -/
def parts : Node → List (Role × Node)
  | .structType id _ => [(.expression, id)]
  | .dot left right _ | .assign left right _ | .binary _ left right _ =>
    [(.expression, left), (.expression, right)]
  | .call id args _ => (.expression, id) :: args.elements.map (.expression, ·)
  | .list .declarations items _ => items.map (.declaration, ·)
  | .list .formals items _ => items.flatMap formalParts
  | .list .statements items _ => items.map (.statement, ·)
  | .list .expressions items _ => items.map (.expression, ·)
  | .variableDecl type id _ _ | .formal type id _ => [(.type, type), (.expression, id)]
  | .functionDecl type id formals body _ =>
    given .type type ++ given .expression id ++ formals.elements.flatMap formalParts ++
      body.bodyParts
  | .functionBody decls stmts _ => blockParts decls stmts
  | .structDecl id decls _ => (.expression, id) :: decls.elements.map (.declaration, ·)
  | .unary _ exp _ | .assignment exp _ | .increment exp _ | .decrement exp _ | .read exp _
  | .write exp _ | .callStatement exp _ => [(.expression, exp)]
  | .ifThen exp decls stmts _ | .whileLoop exp decls stmts _ | .repeatLoop exp decls stmts _ =>
    (.expression, exp) :: blockParts decls stmts
  | .ifElse exp thenDecls thenStmts elseDecls elseStmts _ =>
    (.expression, exp) :: (blockParts thenDecls thenStmts ++ blockParts elseDecls elseStmts)
  | .returnStatement exp _ => given .expression exp
  | .program decls _ => decls.elements.map (.declaration, ·)
  | .absent | .base .. | .primitive .. | .number .. | .string .. | .truth .. | .name .. => []

theorem sizeOf_lt_of_mem_elements {n m : Node} (h : m ∈ n.elements) : sizeOf m < sizeOf n := by
  cases n with
  | list cls items p =>
      have hlt := List.sizeOf_lt_of_mem (show m ∈ items from h)
      simp only [list.sizeOf_spec]
      omega
  | _ => simp [elements] at h

theorem eq_of_mem_given {role : Role} {n : Node} {x : Role × Node} (h : x ∈ given role n) :
    x.2 = n := by
  unfold given at h
  split at h <;> simp_all

theorem sizeOf_lt_of_mem_blockParts {decls stmts : Node} {x : Role × Node}
    (h : x ∈ blockParts decls stmts) : sizeOf x.2 < sizeOf decls + sizeOf stmts := by
  simp only [blockParts, List.mem_append, List.mem_map] at h
  rcases h with ⟨m, hm, rfl⟩ | ⟨m, hm, rfl⟩
  · exact Nat.lt_of_lt_of_le (sizeOf_lt_of_mem_elements hm) (Nat.le_add_right _ _)
  · exact Nat.lt_of_lt_of_le (sizeOf_lt_of_mem_elements hm) (Nat.le_add_left _ _)

theorem sizeOf_lt_of_mem_formalParts {n : Node} {x : Role × Node} (h : x ∈ n.formalParts) :
    sizeOf x.2 < sizeOf n := by
  cases n with
  | formal type id p =>
      simp only [formalParts, List.mem_cons, List.not_mem_nil, or_false] at h
      rcases h with rfl | rfl <;> simp only [formal.sizeOf_spec] <;> omega
  | _ => simp [formalParts] at h

theorem sizeOf_lt_of_mem_bodyParts {n : Node} {x : Role × Node} (h : x ∈ n.bodyParts) :
    sizeOf x.2 < sizeOf n := by
  cases n with
  | functionBody decls stmts p =>
      have hlt := sizeOf_lt_of_mem_blockParts h
      simp only [functionBody.sizeOf_spec]
      omega
  | _ => simp [bodyParts] at h

theorem sizeOf_lt_of_mem_parts {n : Node} {x : Role × Node} (h : x ∈ n.parts) :
    sizeOf x.2 < sizeOf n := by
  have helements : ∀ (m : Node) (role : Role), x ∈ m.elements.map (role, ·) →
      sizeOf x.2 < sizeOf m := by
    intro m role hx
    obtain ⟨m, hm, rfl⟩ := List.mem_map.1 hx
    exact sizeOf_lt_of_mem_elements hm
  have hformals : ∀ m : Node, x ∈ m.elements.flatMap formalParts → sizeOf x.2 < sizeOf m := by
    intro m hx
    obtain ⟨m, hm, hx⟩ := List.mem_flatMap.1 hx
    exact Nat.lt_trans (sizeOf_lt_of_mem_formalParts hx) (sizeOf_lt_of_mem_elements hm)
  have hblock : ∀ decls stmts : Node, x ∈ blockParts decls stmts →
      sizeOf x.2 < sizeOf decls + sizeOf stmts := fun _ _ => sizeOf_lt_of_mem_blockParts
  cases n with
  | absent | base | primitive | number | string | truth | name => simp [parts] at h
  | list cls items p =>
      cases cls with
      | formals => exact hformals (.list .formals items p) h
      | _ => exact helements (.list _ items p) _ h
  | functionBody decls stmts p =>
      exact sizeOf_lt_of_mem_bodyParts (n := .functionBody decls stmts p) h
  | functionDecl type id formals body p =>
      simp only [parts, List.mem_append] at h
      simp only [functionDecl.sizeOf_spec]
      rcases h with ((h | h) | h) | h
      · rw [eq_of_mem_given h]
        omega
      · rw [eq_of_mem_given h]
        omega
      · have := hformals _ h
        omega
      · have := sizeOf_lt_of_mem_bodyParts h
        omega
  | returnStatement exp p =>
      rw [eq_of_mem_given h, returnStatement.sizeOf_spec]
      omega
  | _ =>
      clear hformals
      simp only [parts, List.mem_cons, List.mem_append, List.not_mem_nil, or_false] at h
      grind

/-- The nodes that are visited from one on, each with its role, in the order of the text.  Nothing
is visited below a node that does not belong. -/
def visits (role : Role) (n : Node) : List (Role × Node) :=
  (role, n) :: if role.admits n then n.parts.attach.flatMap fun ⟨x, _⟩ => visits x.1 x.2 else []
termination_by sizeOf n
decreasing_by exact sizeOf_lt_of_mem_parts ‹_›

theorem visits_eq (role : Role) (n : Node) :
    n.visits role =
      (role, n) :: if role.admits n then n.parts.flatMap fun x => x.2.visits x.1 else [] := by
  rw [visits, List.flatMap_subtype fun _ _ => rfl, List.unattach_attach]

/-! ## Lists in their places -/

inductive IsSlotOf (cls : ListClass) : Node → Prop
  | empty : IsSlotOf cls .absent
  | list (items : List Node) (p : Position) : IsSlotOf cls (.list cls items p)

inductive IsBodySlot : Node → Prop
  | empty : IsBodySlot .absent
  | body (decls stmts : Node) (p : Position) : IsBodySlot (.functionBody decls stmts p)

inductive IsFormalDecl : Node → Prop
  | formal (type id : Node) (p : Position) : IsFormalDecl (.formal type id p)

def IsBlock (decls stmts : Node) : Prop :=
  decls.IsSlotOf .declarations ∧ stmts.IsSlotOf .statements

/-- The slots of a node that are meant for lists, formal parameters or a function body hold such, or
are empty. -/
def HoldsLists : Node → Prop
  | .call _ args _ => args.IsSlotOf .expressions
  | .list .formals items _ => ∀ n ∈ items, n.IsFormalDecl
  | .functionDecl _ _ formals body _ => formals.IsSlotOf .formals ∧ body.IsBodySlot
  | .functionBody decls stmts _ | .ifThen _ decls stmts _ | .whileLoop _ decls stmts _
  | .repeatLoop _ decls stmts _ => IsBlock decls stmts
  | .ifElse _ thenDecls thenStmts elseDecls elseStmts _ =>
    IsBlock thenDecls thenStmts ∧ IsBlock elseDecls elseStmts
  | .structDecl _ decls _ | .program decls _ => decls.IsSlotOf .declarations
  | _ => True

/-- Lists stand where lists are expected, all over a tree. -/
inductive Orderly : Node → Prop
  | intro {n : Node} (hn : n.HoldsLists) (h : ∀ x ∈ n.slots, Orderly x.2) : Orderly n

theorem Orderly.holdsLists {n : Node} (h : n.Orderly) : n.HoldsLists := by
  cases h with
  | intro hn _ => exact hn

theorem Orderly.child {n child : Node} (h : n.Orderly) (hchild : child ∈ n.slots.map Prod.snd) :
    child.Orderly := by
  cases h with
  | intro _ h =>
      obtain ⟨x, hx, rfl⟩ := List.mem_map.1 hchild
      exact h x hx

theorem Orderly.item {cls : ListClass} {items : List Node} {p : Position}
    (h : (list cls items p).Orderly) : ∀ n ∈ items, n.Orderly := by
  intro n hn
  obtain ⟨slot, hslot⟩ := exists_mem_slots_list cls p hn
  exact h.child (List.mem_map_of_mem hslot)

end Node

/-! ## Faults -/

theorem findSome?_cons_eq_or {α β : Type} (f : α → Option β) (x : α) (xs : List α) :
    (x :: xs).findSome? f = (f x).or (xs.findSome? f) := by
  rw [List.findSome?_cons]
  cases f x <;> rfl

namespace Layout

def Item.fault? : Item → Option PrintFault
  | .fault f => some f
  | _ => none

def firstFault (items : List Item) : Option PrintFault := items.findSome? Item.fault?

section

variable {items items' : List Item}

@[simp] theorem firstFault_nil : firstFault [] = none := rfl

@[simp] theorem firstFault_text {content : String} :
    firstFault (.text content :: items) = firstFault items := rfl

@[simp] theorem firstFault_indent {width : Int} :
    firstFault (.indent width :: items) = firstFault items := rfl

@[simp] theorem firstFault_append :
    firstFault (items ++ items') = (firstFault items).or (firstFault items') :=
  List.findSome?_append

/-- If every indentation can be written, writing stops at the first fault. -/
theorem fault_writeTo (hfits : Fits items) (written : String) :
    (writeTo written items).fault = firstFault items := by
  induction items generalizing written with
  | nil => rfl
  | cons item rest ih =>
      have hrest : Fits rest := fun width hw => hfits width (List.mem_cons_of_mem _ hw)
      cases item with
      | text content => exact ih hrest _
      | indent width =>
          rw [writeTo, if_pos (hfits width List.mem_cons_self)]
          exact ih hrest _
      | fault f => rfl

end

end Layout

namespace Node

open Layout

def visitFault? (x : Role × Node) : Option PrintFault :=
  if x.1.admits x.2 then none else some (.misplaced x.1 x.2.label)

def faultOf (role : Role) (n : Node) : Option PrintFault := (n.visits role).findSome? visitFault?

def faultOfAll (parts : List (Role × Node)) : Option PrintFault :=
  parts.findSome? fun x => faultOf x.1 x.2

section

variable {role : Role} {n : Node} {x : Role × Node} {xs ys : List (Role × Node)}

@[simp] theorem faultOfAll_nil : faultOfAll [] = none := rfl

@[simp] theorem faultOfAll_cons : faultOfAll (x :: xs) = (faultOf x.1 x.2).or (faultOfAll xs) :=
  findSome?_cons_eq_or ..

@[simp] theorem faultOfAll_append : faultOfAll (xs ++ ys) = (faultOfAll xs).or (faultOfAll ys) :=
  List.findSome?_append

theorem findSome?_visits (xs : List (Role × Node)) :
    (xs.flatMap fun x => x.2.visits x.1).findSome? visitFault? = faultOfAll xs := by
  induction xs with
  | nil => rfl
  | cons x xs ih => rw [List.flatMap_cons, List.findSome?_append, ih, faultOfAll_cons, faultOf]

theorem faultOf_of_admits (h : role.admits n = true) : faultOf role n = faultOfAll n.parts := by
  rw [faultOf, visits_eq, if_pos h, List.findSome?_cons, visitFault?, if_pos h, findSome?_visits]

theorem faultOf_of_not_admits (h : role.admits n = false) :
    faultOf role n = some (.misplaced role n.label) := by
  rw [faultOf, visits_eq, List.findSome?_cons, visitFault?]
  simp [h]

end

/-! ## Expressions, types and formal parameters -/

@[simp] theorem firstFault_inParens (parens : Bool) (items : List Item) :
    firstFault (inParens parens items) = firstFault items := by
  cases parens <;> simp [inParens]

@[simp] theorem firstFault_commaSeparated (itemss : List (List Item)) :
    firstFault (commaSeparated itemss) = itemss.findSome? firstFault := by
  fun_induction commaSeparated itemss with
  | case1 => rfl
  | case2 items => simp [findSome?_cons_eq_or]
  | case3 items rest _ ih => simp [findSome?_cons_eq_or, ih]

mutual

theorem firstFault_expression (parens : Bool) (n : Node) (h : n.Orderly) :
    firstFault (n.expression parens) = faultOf .expression n := by
  cases n with
  | number | string | truth | name =>
      rw [faultOf_of_admits rfl]
      simp [expression, parts]
  | dot loc id p =>
      have hloc := firstFault_expression false loc (h.child (by simp [slots]))
      have hid := firstFault_expression false id (h.child (by simp [slots]))
      rw [faultOf_of_admits rfl]
      simp [expression, parts, hloc, hid]
  | assign lhs exp p =>
      have hlhs := firstFault_expression false lhs (h.child (by simp [slots]))
      have hexp := firstFault_expression false exp (h.child (by simp [slots]))
      rw [faultOf_of_admits rfl]
      simp [expression, parts, hlhs, hexp]
  | call id args p =>
      have hid := firstFault_expression false id (h.child (by simp [slots]))
      have hargs := firstFault_arguments args (h.child (by simp [slots])) h.holdsLists
      rw [faultOf_of_admits rfl]
      simp [expression, parts, hid, hargs]
  | unary op operand p =>
      have hoperand := firstFault_expression (operand.isAssign || operand.isUnary) operand
        (h.child (by simp [slots]))
      rw [faultOf_of_admits rfl]
      simp [expression, parts, hoperand]
  | binary op left right p =>
      have hleft := firstFault_expression left.isAssign left (h.child (by simp [slots]))
      have hright := firstFault_expression (op = some .equals || right.isAssign) right
        (h.child (by simp [slots]))
      rw [faultOf_of_admits rfl]
      simp [expression, parts, hleft, hright]
  | _ =>
      rw [faultOf_of_not_admits rfl]
      exact firstFault_inParens _ _

theorem firstFault_arguments (n : Node) (h : n.Orderly) (hn : n.IsSlotOf .expressions) :
    firstFault n.arguments = faultOfAll (n.elements.map (.expression, ·)) := by
  cases n with
  | absent => rfl
  | list cls items p =>
      cases hn
      simp [arguments, elements, firstFault_expressions items h.item]
  | _ => cases hn

theorem firstFault_expressions (ns : List Node) (h : ∀ n ∈ ns, n.Orderly) :
    (expressions ns).findSome? firstFault = faultOfAll (ns.map (.expression, ·)) := by
  cases ns with
  | nil => rfl
  | cons n rest =>
      rw [List.forall_mem_cons] at h
      rw [expressions, findSome?_cons_eq_or, firstFault_expression false n h.1,
        firstFault_expressions rest h.2, List.map_cons, faultOfAll_cons]

end

theorem firstFault_typeItems {n : Node} (h : n.Orderly) :
    firstFault n.typeItems = faultOf .type n := by
  cases n with
  | primitive type p =>
      rw [faultOf_of_admits rfl]
      rfl
  | structType id p =>
      have hid := firstFault_expression false id (h.child (by simp [slots]))
      rw [faultOf_of_admits rfl]
      simp [typeItems, parts, hid]
  | _ =>
      rw [faultOf_of_not_admits rfl]
      rfl

theorem firstFault_formalItems {n : Node} (h : n.Orderly) (hn : n.IsFormalDecl) :
    firstFault n.formalItems = faultOfAll n.formalParts := by
  cases hn with
  | formal type id p =>
      have htype := firstFault_typeItems (h.child (by simp [slots]) : type.Orderly)
      have hid := firstFault_expression false id (h.child (by simp [slots]))
      simp [formalItems, formalParts, htype, hid]

theorem firstFault_formals {ns : List Node} (h : ∀ n ∈ ns, n.Orderly)
    (hns : ∀ n ∈ ns, n.IsFormalDecl) :
    (ns.map formalItems).findSome? firstFault = faultOfAll (ns.flatMap formalParts) := by
  induction ns with
  | nil => rfl
  | cons n rest ih =>
      rw [List.forall_mem_cons] at h hns
      rw [List.map_cons, findSome?_cons_eq_or, firstFault_formalItems h.1 hns.1, ih h.2 hns.2,
        List.flatMap_cons, faultOfAll_append]

theorem firstFault_formalsItems {items : List Node} {p : Position}
    (h : (list .formals items p).Orderly) :
    firstFault (list .formals items p).formalsItems = faultOfAll (items.flatMap formalParts) := by
  simp [formalsItems, firstFault_formals h.item h.holdsLists]

theorem firstFault_formalsSlot {n : Node} (h : n.Orderly) (hn : n.IsSlotOf .formals) :
    firstFault (if n.isAbsent then [.text "(<missing formals>)"] else n.formalsItems) =
      faultOfAll (n.elements.flatMap formalParts) := by
  cases hn with
  | empty => rfl
  | list items p => exact firstFault_formalsItems h

/-! ## Declarations and statements -/

theorem firstFault_header (keyword : String) {n : Node} (h : n.Orderly) :
    firstFault (header keyword n) = faultOf .expression n := by
  simp [header, firstFault_expression false n h]

theorem firstFault_inBraces (indent : Int) (items : List Item) :
    firstFault (inBraces indent items) = firstFault items := by
  simp [inBraces]

theorem firstFault_block (indent : Int) {decls stmts : Node} {items items' : List Item}
    (hdecls : firstFault items = faultOfAll (decls.elements.map (.declaration, ·)))
    (hstmts : firstFault items' = faultOfAll (stmts.elements.map (.statement, ·))) :
    firstFault (inBraces indent (items ++ items')) = faultOfAll (blockParts decls stmts) := by
  rw [firstFault_inBraces, firstFault_append, hdecls, hstmts, blockParts, faultOfAll_append]

theorem firstFault_given (role : Role) (items : List Item) {n : Node} {items' : List Item}
    (hempty : firstFault items = none) (h : firstFault items' = faultOf role n) :
    firstFault (if n.isAbsent then items else items') = faultOfAll (given role n) := by
  unfold given
  split
  · exact hempty
  · simp [h]

mutual

theorem firstFault_declarationList (tab indent : Int) (n : Node) (h : n.Orderly)
    (hn : n.IsSlotOf .declarations) :
    firstFault (n.declarationList tab indent) = faultOfAll (n.elements.map (.declaration, ·)) := by
  cases n with
  | absent => rfl
  | list cls items p =>
      cases hn
      exact firstFault_declarations tab indent items h.item
  | _ => cases hn

theorem firstFault_declarations (tab indent : Int) (ns : List Node) (h : ∀ n ∈ ns, n.Orderly) :
    firstFault (declarations tab indent ns) = faultOfAll (ns.map (.declaration, ·)) := by
  cases ns with
  | nil => rfl
  | cons n rest =>
      rw [List.forall_mem_cons] at h
      rw [declarations, firstFault_append, firstFault_declaration tab indent n h.1,
        firstFault_declarations tab indent rest h.2, List.map_cons, faultOfAll_cons]

theorem firstFault_declaration (tab indent : Int) (n : Node) (h : n.Orderly) :
    firstFault (n.declaration tab indent) = faultOf .declaration n := by
  cases n with
  | variableDecl type id size p =>
      have htype := firstFault_typeItems (h.child (by simp [slots]) : type.Orderly)
      have hid := firstFault_expression false id (h.child (by simp [slots]))
      rw [faultOf_of_admits rfl]
      simp [declaration, parts, htype, hid]
  | functionDecl type id formals body p =>
      have htype := firstFault_given .type [.text "<missing type>"] rfl
        (firstFault_typeItems (h.child (by simp [slots]) : type.Orderly))
      have hid := firstFault_given .expression [.text "<missing id>"] rfl
        (firstFault_expression false id (h.child (by simp [slots])))
      have hbody := firstFault_functionBodyItems tab indent body (h.child (by simp [slots]))
        h.holdsLists.2
      have hformals := firstFault_formalsSlot (n := formals) (h.child (by simp [slots]))
        h.holdsLists.1
      rw [faultOf_of_admits rfl]
      simp [declaration, parts, htype, hid, hformals, hbody]
  | structDecl id decls p =>
      have hid := firstFault_expression false id (h.child (by simp [slots]))
      have hdecls := firstFault_declarationList tab (indent + tab) decls
        (h.child (by simp [slots])) h.holdsLists
      rw [faultOf_of_admits rfl]
      simp [declaration, parts, hid, firstFault_inBraces, hdecls]
  | _ =>
      rw [faultOf_of_not_admits rfl]
      rfl

theorem firstFault_functionBodyItems (tab indent : Int) (n : Node) (h : n.Orderly)
    (hn : n.IsBodySlot) : firstFault (n.functionBodyItems tab indent) = faultOfAll n.bodyParts := by
  cases n with
  | absent => rfl
  | functionBody decls stmts p =>
      have hdecls := firstFault_declarationList tab (indent + tab) decls
        (h.child (by simp [slots])) h.holdsLists.1
      have hstmts := firstFault_statementList tab (indent + tab) stmts
        (h.child (by simp [slots])) h.holdsLists.2
      simp [functionBodyItems, bodyParts, firstFault_block indent hdecls hstmts]
  | _ => cases hn

theorem firstFault_statementList (tab indent : Int) (n : Node) (h : n.Orderly)
    (hn : n.IsSlotOf .statements) :
    firstFault (n.statementList tab indent) = faultOfAll (n.elements.map (.statement, ·)) := by
  cases n with
  | absent => rfl
  | list cls items p =>
      cases hn
      exact firstFault_statements tab indent items h.item
  | _ => cases hn

theorem firstFault_statements (tab indent : Int) (ns : List Node) (h : ∀ n ∈ ns, n.Orderly) :
    firstFault (statements tab indent ns) = faultOfAll (ns.map (.statement, ·)) := by
  cases ns with
  | nil => rfl
  | cons n rest =>
      rw [List.forall_mem_cons] at h
      rw [statements, firstFault_append, firstFault_statement tab indent n h.1,
        firstFault_statements tab indent rest h.2, List.map_cons, faultOfAll_cons]

theorem firstFault_statement (tab indent : Int) (n : Node) (h : n.Orderly) :
    firstFault (n.statement tab indent) = faultOf .statement n := by
  cases n with
  | assignment exp p | callStatement exp p | increment exp p | decrement exp p | read exp p
  | write exp p =>
      have hexp := firstFault_expression false exp (h.child (by simp [slots]))
      rw [faultOf_of_admits rfl]
      simp [statement, parts, hexp]
  | returnStatement exp p =>
      have hexp := firstFault_expression false exp (h.child (by simp [slots]))
      rw [faultOf_of_admits rfl]
      refine firstFault_given .expression _ rfl ?_
      simp [hexp]
  | ifThen exp decls stmts p | whileLoop exp decls stmts p | repeatLoop exp decls stmts p =>
      have hexp := fun keyword => firstFault_header keyword (n := exp) (h.child (by simp [slots]))
      have hdecls := firstFault_declarationList tab (indent + tab) decls
        (h.child (by simp [slots])) h.holdsLists.1
      have hstmts := firstFault_statementList tab (indent + tab) stmts
        (h.child (by simp [slots])) h.holdsLists.2
      rw [faultOf_of_admits rfl]
      simp [statement, parts, hexp, firstFault_block indent hdecls hstmts]
  | ifElse exp thenDecls thenStmts elseDecls elseStmts p =>
      have hexp := firstFault_header "if" (n := exp) (h.child (by simp [slots]))
      have hthenDecls := firstFault_declarationList tab (indent + tab) thenDecls
        (h.child (by simp [slots])) h.holdsLists.1.1
      have hthenStmts := firstFault_statementList tab (indent + tab) thenStmts
        (h.child (by simp [slots])) h.holdsLists.1.2
      have helseDecls := firstFault_declarationList tab (indent + tab) elseDecls
        (h.child (by simp [slots])) h.holdsLists.2.1
      have helseStmts := firstFault_statementList tab (indent + tab) elseStmts
        (h.child (by simp [slots])) h.holdsLists.2.2
      rw [faultOf_of_admits rfl]
      simp [statement, parts, hexp, firstFault_block indent hthenDecls hthenStmts,
        firstFault_block indent helseDecls helseStmts]
  | _ =>
      rw [faultOf_of_not_admits rfl]
      rfl

end

/-! ## Whole trees -/

theorem firstFault_items (tab indent : Int) {n : Node} (h : n.Orderly) :
    firstFault (n.items tab indent) = faultOf n.rootRole n := by
  cases n with
  | absent =>
      rw [faultOf_of_not_admits rfl]
      rfl
  | base cls p =>
      rw [faultOf_of_not_admits (by cases cls <;> rfl)]
      cases cls <;> rfl
  | program decls p =>
      rw [faultOf_of_admits rfl]
      exact firstFault_declarationList tab indent decls (h.child (by simp [slots])) h.holdsLists
  | list cls items p =>
      rw [faultOf_of_admits rfl]
      cases cls with
      | declarations => exact firstFault_declarations tab indent items h.item
      | formals => exact firstFault_formalsItems h
      | statements => exact firstFault_statements tab indent items h.item
      | expressions => exact firstFault_arguments _ h (.list items p)
  | formal type id p =>
      rw [faultOf_of_admits rfl]
      exact firstFault_formalItems h (.formal type id p)
  | functionBody decls stmts p =>
      rw [faultOf_of_admits rfl]
      exact firstFault_functionBodyItems tab indent _ h (.body decls stmts p)
  | variableDecl | functionDecl | structDecl => exact firstFault_declaration tab indent _ h
  | primitive | structType => exact firstFault_typeItems h
  | assignment | increment | decrement | read | write | ifThen | ifElse | whileLoop | repeatLoop
  | callStatement | returnStatement => exact firstFault_statement tab indent _ h
  | number | string | truth | name | dot | assign | call | unary | binary =>
      exact firstFault_expression false _ h

/-- A tree in which lists stand where they are expected and whose indentations can be written is
printed to its end if and only if all nodes that are visited belong in their roles.  Otherwise the
first of them that does not belong stops the printing, and the fault names its class. -/
theorem print_stops_at_misplaced (tab indent : Int) (n : Node) (h : n.Orderly)
    (hfits : Fits (n.items tab indent)) :
    ((n.print tab indent).fault = none ↔
      ∀ x ∈ n.visits n.rootRole, x.1.admits x.2 = true) ∧
    (¬(∀ x ∈ n.visits n.rootRole, x.1.admits x.2 = true) →
      ∃ front role m back, n.visits n.rootRole = front ++ (role, m) :: back ∧
        (∀ x ∈ front, x.1.admits x.2 = true) ∧ role.admits m = false ∧
        (n.print tab indent).fault = some (.misplaced role m.label)) := by
  have hfault : (n.print tab indent).fault = (n.visits n.rootRole).findSome? visitFault? :=
    (fault_writeTo hfits "").trans (firstFault_items tab indent h)
  have hvisit : ∀ x, visitFault? x = none ↔ x.1.admits x.2 = true := by
    intro x
    unfold visitFault?
    split <;> simp_all
  have hnone : (n.print tab indent).fault = none ↔
      ∀ x ∈ n.visits n.rootRole, x.1.admits x.2 = true := by
    rw [hfault, List.findSome?_eq_none_iff]
    simp only [hvisit]
  refine ⟨hnone, fun hnot => ?_⟩
  obtain ⟨f, hf⟩ := Option.ne_none_iff_exists'.1 (mt hnone.1 hnot)
  obtain ⟨front, ⟨role, m⟩, back, heq, hx, hfront⟩ :=
    List.findSome?_eq_some_iff.1 (hfault.symm.trans hf)
  have hrole : role.admits m = false := by
    rw [Bool.eq_false_iff, ne_eq, ← hvisit (role, m), hx]
    nofun
  refine ⟨front, role, m, back, heq, fun x hx => (hvisit x).1 (hfront x hx), hrole, ?_⟩
  rw [hf, ← hx, visitFault?, if_neg (by simp [hrole])]

theorem print_stops_at_missing_operand :
    let n : Node := .program (.list .declarations [
      .functionDecl .absent (.name "f" ⟨1, 1⟩) (.list .formals [] ⟨1, 1⟩)
        (.functionBody .absent (.list .statements [
          .whileLoop (.binary (some .less) (.name "x" ⟨2, 1⟩) .absent ⟨2, 1⟩) .absent .absent
            ⟨2, 1⟩,
          .increment (.list .expressions [] ⟨3, 1⟩) ⟨3, 1⟩] ⟨2, 1⟩) ⟨1, 1⟩) ⟨1, 1⟩] ⟨1, 1⟩) ⟨1, 1⟩
    n.Orderly ∧ Fits (n.items 4 0) ∧
      (n.print 4 0).fault = some (.misplaced .expression "NoneType") ∧
      ∃ front m back, n.visits .root = front ++ (.expression, m) :: back ∧ m.label = "NoneType" ∧
        ∀ x ∈ front, x.1.admits x.2 = true := by
  intro n
  have horderly : n.Orderly := by
    unfold n
    repeat'
      first
      | exact .empty
      | exact .list _ _
      | exact .body _ _ _
      | exact List.forall_mem_nil _
      | constructor
      | simp only [slots, List.zipIdx_cons, List.zipIdx_nil, List.map_cons, List.map_nil,
          List.forall_mem_cons, List.not_mem_nil, false_implies, implies_true, and_true]
  have hfits : Fits (n.items 4 0) := by
    refine (indentedBy_items 4 0 n).fits fun k hk => ?_
    have hk : k ≤ 2 := hk
    obtain rfl | rfl | rfl : k = 0 ∨ k = 1 ∨ k = 2 := by omega
    · decide
    · decide
    · decide
  have hfault : (n.print 4 0).fault = some (.misplaced .expression "NoneType") := rfl
  refine ⟨horderly, hfits, hfault, ?_⟩
  have hstops := print_stops_at_misplaced 4 0 n horderly hfits
  obtain ⟨front, role, m, back, hvisits, hfront, -, hm⟩ :=
    hstops.2 (mt hstops.1.2 (by simp [hfault]))
  injection hfault.symm.trans hm with hm
  injection hm with hrole hlabel
  exact ⟨front, m, back, by rw [hrole]; exact hvisits, hlabel.symm, hfront⟩

end Node

end Cmm

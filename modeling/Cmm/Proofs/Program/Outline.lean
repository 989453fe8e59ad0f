import Cmm.Proofs.Node.Outline
import Cmm.Proofs.Program.Image
import Cmm.Proofs.Text.Quoted
import Cmm.Proofs.Token.Lines

/-!
# Outlines of programs

The tree of a program that was read has no empty slots but those of returns without a value, and
none of its texts goes over the end of a line; so its outline tells the tree.
-/

namespace Cmm

namespace Node

variable {n : Node}

theorem Legible.of_detail (hn : n.isAbsent = false)
    (hdetail : ∀ text ∈ n.detail?, '\n' ∉ text.toList) (h : ∀ x ∈ n.slots, x.2.Legible) :
    n.Legible :=
  .node hn (lineFeed_notMem_caption hdetail) h

theorem Legible.of_slots (hn : n.isAbsent = false) (hdetail : n.detail? = none)
    (h : ∀ x ∈ n.slots, x.2.Legible) : n.Legible :=
  .of_detail hn (by simp [hdetail]) h

theorem legible_list (cls : ListClass) (p : Position) {items : List Node}
    (h : ∀ n ∈ items, n.Legible) : (list cls items p).Legible :=
  .of_slots rfl rfl fun _ hx => h _ (mem_of_mem_slots_list hx)

theorem IsName.legible (h : n.IsName) : n.Legible := by
  cases h with
  | name h => exact .of_detail rfl (by simpa [detail?] using h.lineFeed_notMem) (List.forall_mem_nil _)

theorem IsLocation.legible (h : n.IsLocation) : n.Legible := by
  induction h with
  | name h => exact h.legible
  | dot _ hid ih => exact .of_slots rfl rfl (by simpa [slots] using ⟨ih, hid.legible⟩)

theorem IsExpression.legible (h : n.IsExpression) : n.Legible := by
  induction h with
  | @number value p _ _ =>
      have hprintable := (Text.printable_toString value).lineFeed_notMem
      exact .of_detail rfl (by simpa [detail?] using hprintable) (List.forall_mem_nil _)
  | string h => exact .of_detail rfl (by simpa [detail?] using h.lineFeed_notMem) (List.forall_mem_nil _)
  | truth => exact .of_slots rfl rfl (List.forall_mem_nil _)
  | location h => exact h.legible
  | assign hlhs _ ih => exact .of_slots rfl rfl (by simpa [slots] using ⟨hlhs.legible, ih⟩)
  | call hid _ ih =>
      exact .of_slots rfl rfl (by simpa [slots] using ⟨hid.legible, legible_list _ _ ih⟩)
  | unary op _ ih =>
      have hsign : '\n' ∉ op.spelling.toList := op.symbol.notMem_spelling_of_isSpace rfl
      exact .of_detail rfl (by simpa [detail?] using hsign) (by simpa [slots] using ih)
  | binary op _ _ ihleft ihright =>
      have hsign : '\n' ∉ op.spelling.toList := op.symbol.notMem_spelling_of_isSpace rfl
      exact .of_detail rfl (by simpa [detail?] using hsign)
        (by simpa [slots] using ⟨ihleft, ihright⟩)

theorem legible_primitive (type : Primitive) (p : Position) : (primitive type p).Legible :=
  .of_slots rfl rfl (List.forall_mem_nil _)

theorem IsVariable.legible (h : n.IsVariable) : n.Legible := by
  cases h with
  | primitive type hid =>
      exact .of_slots rfl rfl (by simpa [slots] using ⟨legible_primitive _ _, hid.legible⟩)
  | struct hname hid =>
      have htype : ∀ q, (structType _ q).Legible := fun q =>
        .of_slots rfl rfl (by simpa [slots] using hname.legible)
      have hsize : '\n' ∉ "size=0".toList := by decide
      refine .of_detail rfl (fun text htext => ?_) (by simpa [slots] using ⟨htype _, hid.legible⟩)
      cases htext
      exact hsize

theorem IsVariables.legible (h : n.IsVariables) : n.Legible := by
  cases h with
  | list h => exact legible_list _ _ fun m hm => (h m hm).legible

theorem IsFormal.legible (h : n.IsFormal) : n.Legible := by
  cases h with
  | formal type hid =>
      exact .of_slots rfl rfl (by simpa [slots] using ⟨legible_primitive _ _, hid.legible⟩)

theorem IsStatement.legible (h : n.IsStatement) : n.Legible := by
  induction h with
  | assignment hlhs hexp =>
      exact .of_slots rfl rfl (by simpa [slots] using (IsExpression.assign hlhs hexp).legible)
  | increment h | decrement h | read h =>
      exact .of_slots rfl rfl (by simpa [slots] using h.legible)
  | write h | returnValue h => exact .of_slots rfl rfl (by simpa [slots] using h.legible)
  | ifThen hexp hdecls _ ih | whileLoop hexp hdecls _ ih | repeatLoop hexp hdecls _ ih =>
      exact .of_slots rfl rfl
        (by simpa [slots] using ⟨hexp.legible, hdecls.legible, legible_list _ _ ih⟩)
  | ifElse hexp hdecls _ hdecls' _ ih ih' =>
      exact .of_slots rfl rfl (by simpa [slots] using ⟨hexp.legible, hdecls.legible,
        legible_list _ _ ih, hdecls'.legible, legible_list _ _ ih'⟩)
  | callStatement hid hargs =>
      exact .of_slots rfl rfl (by simpa [slots] using (IsExpression.call hid hargs).legible)
  | returnNothing p => exact .returnNothing p

theorem IsDeclaration.legible (h : n.IsDeclaration) : n.Legible := by
  cases h with
  | «variable» h => exact h.legible
  | function type hid hformals hdecls hstmts =>
      have hbody : ∀ q r, (functionBody _ (list .statements _ q) r).Legible := fun q r =>
        .of_slots rfl rfl (by
          simpa [slots] using ⟨hdecls.legible, legible_list _ q fun m hm => (hstmts m hm).legible⟩)
      exact .of_slots rfl rfl (by simpa [slots] using ⟨legible_primitive _ _, hid.legible,
        legible_list _ _ fun m hm => (hformals m hm).legible, hbody _ _⟩)
  | struct hid _ hfields =>
      exact .of_slots rfl rfl (by simpa [slots] using
        ⟨hid.legible, legible_list _ _ fun m hm => (hfields m hm).legible⟩)

theorem IsProgram.legible (h : n.IsProgram) : n.Legible := by
  cases h with
  | program h =>
      exact .of_slots rfl rfl
        (by simpa [slots] using legible_list _ _ fun m hm => (h m hm).legible)

end Node

theorem Program.legible_of_ofText {limits : Limits} {source : String} {p : Program}
    (h : ofText limits source = .ok p) : p.toNode.Legible :=
  (program_image.1 limits source p h).legible

/-- Programs that were read have the same outline if and only if their trees are equal.  The outline
has a line for each node, in preorder, which is its caption behind two spaces for each level, and it
is shown if the number of these spaces is an index and there is room for them. -/
theorem program_outline {limits limits' : Limits} {source source' : String} {p q : Program}
    (hp : Program.ofText limits source = .ok p) (hq : Program.ofText limits' source' = .ok q)
    (level : Nat) :
    (p.toNode.outline level = q.toNode.outline level ↔ p.toNode.sameAs q.toNode = true) ∧
    (p.toNode.outline level).toList.splitOn '\n' =
      (p.toNode.preorder 0).map (fun (depth, n) =>
        List.replicate (2 * (level + depth)) ' ' ++ n.caption.toList) ++ [[]] ∧
    ∀ room, (∀ x ∈ p.toNode.preorder 0, 2 * ((level : Int) + x.1) ≤ maxIndex ∧
        2 * ((level : Int) + x.1) < room) →
      p.toNode.outlineFrom room level = .ok (p.toNode.outline level) := by
  have hlegible := Program.legible_of_ofText hp
  exact ⟨Node.outline_eq_iff level hlegible (Program.legible_of_ofText hq),
    Node.splitOn_outline level hlegible,
    fun room => Node.outlineFrom_eq_ok room level hlegible.isAbsent⟩

private def leftSource : String := "int f() \x7b return (1 - 2) - 3; \x7d"

private def rightSource : String := "int f() \x7b return 1 - (2 - 3); \x7d"

theorem program_outline_of_parentheses : ∃ p q : Program, Program.ofText {} leftSource = .ok p ∧
    Program.ofText {} rightSource = .ok q ∧ p.toNode.sameAs q.toNode = false ∧
    p.toNode.outline 0 ≠ q.toNode.outline 0 := by
  have hdiffer : ((Program.ofText {} leftSource).toOption.bind fun p =>
      (Program.ofText {} rightSource).toOption.map fun q => p.toNode.sameAs q.toNode) =
        some false := by
    decide +kernel
  cases hp : Program.ofText {} leftSource with
  | error e => simp [hp, Except.toOption] at hdiffer
  | ok p =>
      cases hq : Program.ofText {} rightSource with
      | error e => simp [hp, hq, Except.toOption] at hdiffer
      | ok q =>
          have hsame : p.toNode.sameAs q.toNode = false := by
            simpa [hp, hq, Except.toOption] using hdiffer
          refine ⟨p, q, rfl, rfl, hsame, fun h => ?_⟩
          rw [(program_outline hp hq 0).1.1 h] at hsame
          cases hsame

end Cmm

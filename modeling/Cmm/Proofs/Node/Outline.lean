import Mathlib.Data.List.Nodup
import Cmm.Proofs.Node.Unplaced
import Cmm.Proofs.Node.Height
import Cmm.Proofs.Text.Lines

/-!
# Outlines

An outline has a line for each node, in preorder.  A line tells the depth and the caption of its
node, a caption tells the class and the detail, and depths tell which children belong to which node.
So trees without empty slots that have the same outline are equal but for positions.
-/

namespace Cmm.Node

/-! ## Classes -/

def frame : Node → Node
  | .absent => .absent
  | .base cls _ => .base cls .start
  | .primitive type _ => .primitive type .start
  | .structType .. => .structType .absent .start
  | .number .. => .number 0 .start
  | .string .. => .string "" .start
  | .truth value _ => .truth value .start
  | .name .. => .name "" .start
  | .dot .. => .dot .absent .absent .start
  | .assign .. => .assign .absent .absent .start
  | .call .. => .call .absent .absent .start
  | .unary op .. => .unary op .absent .start
  | .binary op .. => .binary op .absent .absent .start
  | .list cls .. => .list cls [] .start
  | .variableDecl .. => .variableDecl .absent .absent 0 .start
  | .formal .. => .formal .absent .absent .start
  | .functionDecl .. => .functionDecl .absent .absent .absent .absent .start
  | .functionBody .. => .functionBody .absent .absent .start
  | .structDecl .. => .structDecl .absent .absent .start
  | .assignment .. => .assignment .absent .start
  | .increment .. => .increment .absent .start
  | .decrement .. => .decrement .absent .start
  | .read .. => .read .absent .start
  | .write .. => .write .absent .start
  | .ifThen .. => .ifThen .absent .absent .absent .start
  | .ifElse .. => .ifElse .absent .absent .absent .absent .absent .start
  | .whileLoop .. => .whileLoop .absent .absent .absent .start
  | .repeatLoop .. => .repeatLoop .absent .absent .absent .start
  | .callStatement .. => .callStatement .absent .start
  | .returnStatement .. => .returnStatement .absent .start
  | .program .. => .program .absent .start

def binaryFrames : List Node :=
  [none, some .plus, some .minus, some .times, some .divide, some .and, some .or, some .equals,
    some .notEquals, some .less, some .greater, some .lessEq, some .greaterEq].map
    fun op => .binary op .absent .absent .start

def otherFrames : List Node :=
  [.absent, .base .node .start, .base .type .start, .base .expression .start,
    .base .declaration .start, .base .statement .start, .primitive .int .start,
    .primitive .bool .start, .primitive .void .start, .structType .absent .start,
    .number 0 .start, .string "" .start, .truth true .start, .truth false .start, .name "" .start,
    .dot .absent .absent .start, .assign .absent .absent .start, .call .absent .absent .start,
    .unary none .absent .start, .unary (some .minus) .absent .start,
    .unary (some .not) .absent .start, .list .declarations [] .start, .list .formals [] .start,
    .list .statements [] .start, .list .expressions [] .start,
    .variableDecl .absent .absent 0 .start, .formal .absent .absent .start,
    .functionDecl .absent .absent .absent .absent .start, .functionBody .absent .absent .start,
    .structDecl .absent .absent .start, .assignment .absent .start, .increment .absent .start,
    .decrement .absent .start, .read .absent .start, .write .absent .start,
    .ifThen .absent .absent .absent .start, .ifElse .absent .absent .absent .absent .absent .start,
    .whileLoop .absent .absent .absent .start, .repeatLoop .absent .absent .absent .start,
    .callStatement .absent .start, .returnStatement .absent .start, .program .absent .start]

def frames : List Node := otherFrames ++ binaryFrames

theorem frame_mem (n : Node) : n.frame ∈ frames := by
  refine List.mem_append.2 ?_
  cases n with
  | binary op left right p =>
      refine .inr (List.mem_map.2 ⟨op, ?_, rfl⟩)
      cases op with
      | none => exact List.mem_cons_self
      | some op => cases op <;> simp
  | base cls p => cases cls <;> simp [frame, otherFrames]
  | primitive type p => cases type <;> simp [frame, otherFrames]
  | truth value p => cases value <;> simp [frame, otherFrames]
  | unary op operand p => rcases op with _ | _ | _ <;> simp [frame, otherFrames]
  | list cls items p => cases cls <;> simp [frame, otherFrames]
  | _ => exact .inl (by simp [frame, otherFrames])

theorem label_frame (n : Node) : n.frame.label = n.label := by
  cases n with
  | truth value p => cases value <;> rfl
  | unary op operand p => cases op <;> rfl
  | binary op left right p => cases op <;> rfl
  | _ => rfl

theorem frame_eq_of_label_eq {n m : Node} (h : n.label = m.label) : n.frame = m.frame := by
  have hnodup : (frames.map label).Nodup := by decide
  refine List.inj_on_of_nodup_map hnodup n.frame_mem m.frame_mem ?_
  rw [label_frame, label_frame, h]

theorem isAlpha_of_mem_label {n : Node} {c : Char} (h : c ∈ n.label.toList) : c.isAlpha = true := by
  have hframes : (frames.all fun m => m.label.toList.all Char.isAlpha) = true := by decide
  have hframe := List.all_eq_true.1 hframes n.frame n.frame_mem
  rw [label_frame] at hframe
  exact List.all_eq_true.1 hframe c h

/-! ## Captions -/

def detailText (detail : Option String) : List Char :=
  detail.elim [] fun text => '(' :: (text.toList ++ [')'])

theorem toList_caption (n : Node) : n.caption.toList = n.label.toList ++ detailText n.detail? := by
  unfold caption
  cases n.detail? with
  | none => simp [detailText]
  | some text => simp [detailText, toString]

theorem label_eq_takeWhile_caption (n : Node) :
    n.label.toList = n.caption.toList.takeWhile Char.isAlpha := by
  have hlabel : ∀ c ∈ n.label.toList, c.isAlpha = true := fun _ => isAlpha_of_mem_label
  rw [toList_caption, List.takeWhile_append_of_pos hlabel]
  have hopen : '('.isAlpha = false := by decide
  cases n.detail? <;> simp [detailText, hopen]

theorem detailText_inj {detail detail' : Option String} :
    detailText detail = detailText detail' ↔ detail = detail' := by
  cases detail <;> cases detail' <;> simp [detailText, String.toList_inj]

theorem caption_inj {n m : Node} :
    n.caption = m.caption ↔ n.label = m.label ∧ n.detail? = m.detail? := by
  refine ⟨fun h => ?_, fun ⟨hlabel, hdetail⟩ => by unfold caption; rw [hlabel, hdetail]⟩
  have hlabel : n.label = m.label := by
    rw [← String.toList_inj, label_eq_takeWhile_caption, label_eq_takeWhile_caption, h]
  have hdetail : detailText n.detail? = detailText m.detail? := by
    have h := congrArg String.toList h
    rw [toList_caption, toList_caption, hlabel] at h
    exact List.append_cancel_left h
  exact ⟨hlabel, detailText_inj.1 hdetail⟩

theorem head?_caption (n : Node) : n.caption.toList.head? ≠ some ' ' := by
  intro h
  rw [toList_caption] at h
  cases hlabel : n.label.toList with
  | nil =>
      rw [hlabel] at h
      cases hdetail : n.detail? <;> simp [hdetail, detailText] at h
  | cons c rest =>
      rw [hlabel] at h
      obtain rfl : c = ' ' := by simpa using h
      have halpha := isAlpha_of_mem_label (n := n) (c := ' ') (by simp [hlabel])
      cases halpha

theorem lineFeed_notMem_caption {n : Node} (h : ∀ text ∈ n.detail?, '\n' ∉ text.toList) :
    '\n' ∉ n.caption.toList := by
  have hlabel : '\n' ∉ n.label.toList := fun hmem => nomatch isAlpha_of_mem_label hmem
  rw [toList_caption, List.mem_append, not_or]
  refine ⟨hlabel, ?_⟩
  cases hdetail : n.detail? with
  | none => exact List.not_mem_nil
  | some text => simp [detailText, h text hdetail]

/-! ## Legible trees -/

/-- No slot is empty, except that of a return, and no caption goes over the end of a line. -/
inductive Legible : Node → Prop
  | node {n : Node} (hn : n.isAbsent = false) (hcaption : '\n' ∉ n.caption.toList)
      (h : ∀ x ∈ n.slots, Legible x.2) : Legible n
  | returnNothing (p : Position) : Legible (.returnStatement .absent p)

theorem Legible.isAbsent {n : Node} (h : n.Legible) : n.isAbsent = false := by
  cases h with
  | node hn => exact hn
  | returnNothing => rfl

theorem Legible.caption {n : Node} (h : n.Legible) : '\n' ∉ n.caption.toList := by
  cases h with
  | node _ hcaption => exact hcaption
  | returnNothing p => exact lineFeed_notMem_caption nofun

theorem children_eq_of_legible {n : Node} (h : ∀ x ∈ n.slots, Legible x.2) :
    n.children = n.slots.map Prod.snd := by
  refine List.filter_eq_self.2 fun child hchild => ?_
  obtain ⟨x, hx, rfl⟩ := List.mem_map.1 hchild
  rw [(h x hx).isAbsent]
  rfl

theorem Legible.child {n : Node} (h : n.Legible) : ∀ child ∈ n.children, child.Legible := by
  cases h with
  | node _ _ h =>
      intro child hchild
      rw [children_eq_of_legible h] at hchild
      obtain ⟨x, hx, rfl⟩ := List.mem_map.1 hchild
      exact h x hx
  | returnNothing => nofun

def integerOf : List Char → Int
  | '-' :: digits => -(Nat.ofDigitChars 10 digits 0 : Int)
  | digits => Nat.ofDigitChars 10 digits 0

theorem integerOf_toString (value : Int) : integerOf (toString value).toList = value := by
  rw [Int.toString_eq_repr, Int.repr_eq_if]
  split
  · rename_i hvalue
    have hminus : ∀ digits, Nat.toDigits 10 value.toNat ≠ '-' :: digits := by
      intro digits h
      have hdigit : '-'.isDigit = true :=
        Nat.isDigit_of_mem_toDigits (by decide) (by decide) (h ▸ List.mem_cons_self)
      cases hdigit
    rw [Nat.toList_repr, integerOf.eq_2 _ hminus, Nat.ofDigitChars_ten_toDigits]
    exact Int.toNat_of_nonneg hvalue
  · rename_i hvalue
    rw [String.toList_append, Nat.toList_repr]
    change -(Nat.ofDigitChars 10 (Nat.toDigits 10 (-value).toNat) 0 : Int) = value
    rw [Nat.ofDigitChars_ten_toDigits]
    omega

def filled (detail : Option String) (children : List Node) (frame : Node) : Node :=
  let child (i : Nat) : Node := children.getD i .absent
  match frame with
  | .structType .. => .structType (child 0) .start
  | .number .. => .number (detail.elim 0 fun text => integerOf text.toList) .start
  | .string .. => .string (detail.getD "") .start
  | .name .. => .name (detail.getD "") .start
  | .dot .. => .dot (child 0) (child 1) .start
  | .assign .. => .assign (child 0) (child 1) .start
  | .call .. => .call (child 0) (child 1) .start
  | .unary op .. => .unary op (child 0) .start
  | .binary op .. => .binary op (child 0) (child 1) .start
  | .list cls .. => .list cls children .start
  | .variableDecl .. =>
    let size := detail.elim notStruct fun text => integerOf (text.toList.drop 5)
    .variableDecl (child 0) (child 1) size .start
  | .formal .. => .formal (child 0) (child 1) .start
  | .functionDecl .. => .functionDecl (child 0) (child 1) (child 2) (child 3) .start
  | .functionBody .. => .functionBody (child 0) (child 1) .start
  | .structDecl .. => .structDecl (child 0) (child 1) .start
  | .assignment .. => .assignment (child 0) .start
  | .increment .. => .increment (child 0) .start
  | .decrement .. => .decrement (child 0) .start
  | .read .. => .read (child 0) .start
  | .write .. => .write (child 0) .start
  | .ifThen .. => .ifThen (child 0) (child 1) (child 2) .start
  | .ifElse .. => .ifElse (child 0) (child 1) (child 2) (child 3) (child 4) .start
  | .whileLoop .. => .whileLoop (child 0) (child 1) (child 2) .start
  | .repeatLoop .. => .repeatLoop (child 0) (child 1) (child 2) .start
  | .callStatement .. => .callStatement (child 0) .start
  | .returnStatement .. => .returnStatement (child 0) .start
  | .program .. => .program (child 0) .start
  | .absent | .base .. | .primitive .. | .truth .. => frame

theorem map_snd_slots_list (cls : ListClass) (items : List Node) (p : Position) :
    (list cls items p).slots.map Prod.snd = items := by
  rw [slots, List.map_map]
  exact List.zipIdx_map_fst 0 items

/-- The class of a legible tree, its detail and its children tell the tree. -/
theorem filled_frame {n : Node} (h : n.Legible) :
    filled n.detail? (n.children.map unplaced) n.frame = n.unplaced := by
  cases h with
  | returnNothing p => rfl
  | node hn _ h =>
      rw [children_eq_of_legible h]
      cases n with
      | absent => cases hn
      | list cls items p =>
          rw [map_snd_slots_list, unplaced, allUnplaced_eq_map]
          rfl
      | number value p =>
          simp only [frame, filled, detail?, unplaced, Option.elim, integerOf_toString]
      | variableDecl type id size p =>
          by_cases hsize : size = notStruct
          · simp [frame, filled, detail?, unplaced, slots, hsize]
          · have hread : integerOf (s!"size={size}".toList.drop 5) = size := by
              rw [String.toList_append]
              exact integerOf_toString size
            simp only [frame, filled, detail?, unplaced, if_neg hsize, Option.elim, hread]
            rfl
      | _ => rfl

/-- Legible trees of the same caption whose children are equal but for positions are, too. -/
theorem unplaced_eq_of_caption_eq {n m : Node} (hn : n.Legible) (hm : m.Legible)
    (hcaption : n.caption = m.caption)
    (hchildren : n.children.map unplaced = m.children.map unplaced) : n.unplaced = m.unplaced := by
  obtain ⟨hlabel, hdetail⟩ := caption_inj.1 hcaption
  rw [← filled_frame hn, ← filled_frame hm, frame_eq_of_label_eq hlabel, hdetail, hchildren]

/-! ## Preorder -/

theorem sizeOf_lt_of_mem_children {n child : Node} (h : child ∈ n.children) :
    sizeOf child < sizeOf n := by
  obtain ⟨x, hx, rfl⟩ := List.mem_map.1 (List.mem_of_mem_filter h)
  exact sizeOf_lt_of_mem_slots hx

/-- The nodes of a tree with their depths, a node before its children. -/
def preorder (depth : Nat) (n : Node) : List (Nat × Node) :=
  (depth, n) :: n.children.attach.flatMap fun ⟨child, _⟩ => preorder (depth + 1) child
termination_by sizeOf n
decreasing_by exact sizeOf_lt_of_mem_children ‹_›

theorem preorder_eq (depth : Nat) (n : Node) :
    n.preorder depth = (depth, n) :: n.children.flatMap (preorder (depth + 1)) := by
  rw [preorder, List.flatMap_subtype fun _ _ => rfl, List.unattach_attach]

/-- What a line of an outline tells of a node. -/
def entry (x : Nat × Node) : Nat × String := (x.1, x.2.caption)

def entries (depth : Nat) (n : Node) : List (Nat × String) := (n.preorder depth).map entry

theorem entries_eq (depth : Nat) (n : Node) :
    n.entries depth = (depth, n.caption) :: n.children.flatMap (entries (depth + 1)) := by
  rw [entries, preorder_eq, List.map_cons, List.map_flatMap]
  rfl

def Above (depth : Nat) (rest : List (Nat × String)) : Prop := ∀ x ∈ rest.head?, x.1 ≤ depth

theorem above_flatMap_entries {depth : Nat} {rest : List (Nat × String)} (h : Above depth rest)
    (ns : List Node) : Above depth (ns.flatMap (entries depth) ++ rest) := by
  cases ns with
  | nil => exact h
  | cons n ns =>
      rw [List.flatMap_cons, entries_eq]
      simp [Above]

/-- The entries of a tree tell the tree, whatever follows them. -/
def Told (n : Node) : Prop :=
  ∀ (m : Node) (depth : Nat) (rest rest' : List (Nat × String)), m.Legible → Above depth rest →
    Above depth rest' → n.entries depth ++ rest = m.entries depth ++ rest' →
    n.unplaced = m.unplaced ∧ rest = rest'

theorem told_all {ns ms : List Node} {depth : Nat} {rest rest' : List (Nat × String)}
    (hns : ∀ n ∈ ns, n.Told) (hms : ∀ m ∈ ms, m.Legible) (hrest : Above depth rest)
    (hrest' : Above depth rest')
    (h : ns.flatMap (entries (depth + 1)) ++ rest = ms.flatMap (entries (depth + 1)) ++ rest') :
    ns.map unplaced = ms.map unplaced ∧ rest = rest' := by
  have hdeep : ∀ (n : Node) (more other : List (Nat × String)), Above depth other →
      other ≠ n.entries (depth + 1) ++ more := by
    intro n more other hother heq
    rw [heq, entries_eq] at hother
    have hle : depth + 1 ≤ depth := hother _ rfl
    omega
  have hup : ∀ {other}, Above depth other → Above (depth + 1) other :=
    fun hother x hx => Nat.le_succ_of_le (hother x hx)
  induction ns generalizing ms with
  | nil =>
      cases ms with
      | nil => exact ⟨rfl, h⟩
      | cons m ms =>
          rw [List.flatMap_cons, List.append_assoc] at h
          exact absurd h (hdeep m _ _ hrest)
  | cons n ns ih =>
      rw [List.forall_mem_cons] at hns
      cases ms with
      | nil =>
          rw [List.flatMap_cons, List.append_assoc] at h
          exact absurd h.symm (hdeep n _ _ hrest')
      | cons m ms =>
          rw [List.forall_mem_cons] at hms
          rw [List.flatMap_cons, List.flatMap_cons, List.append_assoc, List.append_assoc] at h
          obtain ⟨hhead, htail⟩ := hns.1 m (depth + 1) _ _ hms.1
            (above_flatMap_entries (hup hrest) ns) (above_flatMap_entries (hup hrest') ms) h
          obtain ⟨hall, heq⟩ := ih hns.2 hms.2 htail
          exact ⟨by rw [List.map_cons, List.map_cons, hhead, hall], heq⟩

theorem told_of_children {n : Node} (h : n.Legible) (hchildren : ∀ m ∈ n.children, m.Told) :
    n.Told := by
  intro m depth rest rest' hm hrest hrest' heq
  rw [entries_eq, entries_eq, List.cons_append, List.cons_append, List.cons.injEq,
    Prod.mk.injEq] at heq
  obtain ⟨⟨-, hcaption⟩, heq⟩ := heq
  obtain ⟨hall, hend⟩ := told_all hchildren hm.child hrest hrest' heq
  exact ⟨unplaced_eq_of_caption_eq h hm hcaption hall, hend⟩

theorem told_of_legible {n : Node} (h : n.Legible) : n.Told := by
  induction h with
  | node hn hcaption h ih =>
      refine told_of_children (.node hn hcaption h) fun m hm => ?_
      rw [children_eq_of_legible h] at hm
      obtain ⟨x, hx, rfl⟩ := List.mem_map.1 hm
      exact ih x hx
  | returnNothing p => exact told_of_children (.returnNothing p) nofun

/-! ## Positions -/

theorem map_snd_slots_unplaced (n : Node) :
    n.unplaced.slots.map Prod.snd = (n.slots.map Prod.snd).map unplaced := by
  cases n with
  | list cls items p =>
      rw [unplaced, map_snd_slots_list, map_snd_slots_list, allUnplaced_eq_map]
  | _ => rfl

theorem children_unplaced (n : Node) : n.unplaced.children = n.children.map unplaced := by
  rw [children, map_snd_slots_unplaced, List.filter_map, children]
  refine congrArg _ (List.filter_congr fun child _ => ?_)
  rw [Function.comp, isAbsent_unplaced]

theorem caption_unplaced (n : Node) : n.unplaced.caption = n.caption := by
  cases n with
  | truth value p => cases value <;> rfl
  | unary op operand p => cases op <;> rfl
  | binary op left right p => cases op <;> rfl
  | _ => rfl

theorem entries_unplaced (depth : Nat) (n : Node) : n.unplaced.entries depth = n.entries depth := by
  rw [entries_eq, entries_eq, caption_unplaced, children_unplaced, List.flatMap_map]
  refine congrArg _ (List.flatMap_congr fun child hchild => ?_)
  exact entries_unplaced (depth + 1) child
termination_by sizeOf n
decreasing_by exact sizeOf_lt_of_mem_children hchild

/-- Legible trees are equal if and only if they have the same entries. -/
theorem entries_eq_iff {n m : Node} (hn : n.Legible) (hm : m.Legible) (depth : Nat) :
    n.entries depth = m.entries depth ↔ n.sameAs m = true := by
  constructor
  · intro h
    refine sameAs_of_unplaced_eq n m ?_
    exact (told_of_legible hn m depth [] [] hm nofun nofun (congrArg (· ++ []) h)).1
  · intro h
    rw [← entries_unplaced, unplaced_eq_of_sameAs n m h, entries_unplaced]

/-! ## Lines -/

def nodesOf (rows : List Row) : List (Nat × Node) :=
  (rows.filter fun row => !row.node.isAbsent).map fun row => (row.depth, row.node)

theorem nodesOf_flatMap {α : Type} (f : α → List Row) (xs : List α) :
    nodesOf (xs.flatMap f) = xs.flatMap fun x => nodesOf (f x) := by
  rw [nodesOf, List.filter_flatMap, List.map_flatMap]
  rfl

theorem nodesOf_rows (depth : Nat) (slot : String) (n : Node) :
    nodesOf (n.rows depth slot) = if n.isAbsent then [] else n.preorder depth := by
  have hslots : ∀ xs : List (String × Node), (∀ x ∈ xs, x ∈ n.slots) →
      nodesOf (xs.flatMap fun x => x.2.rows (depth + 1) x.1) =
        ((xs.map Prod.snd).filter fun child => !child.isAbsent).flatMap
          (preorder (depth + 1)) := by
    intro xs hxs
    rw [nodesOf_flatMap]
    induction xs with
    | nil => rfl
    | cons x xs ih =>
        rw [List.forall_mem_cons] at hxs
        have hx := hxs.1
        rw [List.flatMap_cons, ih hxs.2, nodesOf_rows (depth + 1) x.1 x.2, List.map_cons]
        cases habsent : x.2.isAbsent <;> simp [habsent]
  cases habsent : n.isAbsent with
  | true =>
      cases n with
      | absent =>
          rw [rows_eq]
          rfl
      | _ => cases habsent
  | false =>
      have hcons : ∀ rows, nodesOf (⟨depth, slot, n⟩ :: rows) = (depth, n) :: nodesOf rows := by
        simp [nodesOf, habsent]
      rw [rows_eq, hcons, preorder_eq]
      exact congrArg _ (hslots n.slots fun _ hx => hx)
termination_by sizeOf n
decreasing_by exact sizeOf_lt_of_mem_slots hx

theorem map_nodeRows {n : Node} (h : n.isAbsent = false) :
    n.nodeRows.map (fun row => (row.depth, row.node)) = n.preorder 0 :=
  (nodesOf_rows 0 "" n).trans (by rw [h]; rfl)

def line (level : Nat) (x : Nat × Node) : List Char :=
  Text.indented (2 * (level + x.1)) x.2.caption.toList

theorem line_inj {level : Nat} {x y : Nat × Node} :
    line level x = line level y ↔ entry x = entry y := by
  rw [line, line, Text.indented_inj (head?_caption _) (head?_caption _), String.toList_inj, entry,
    entry, Prod.mk.injEq]
  refine and_congr_left fun _ => ?_
  omega

theorem map_line_inj (level : Nat) {xs ys : List (Nat × Node)} :
    xs.map (line level) = ys.map (line level) ↔ xs.map entry = ys.map entry := by
  induction xs generalizing ys with
  | nil => simp
  | cons x xs ih => cases ys <;> simp [line_inj, ih]

theorem toList_outlineLine (level : Nat) (row : Row) :
    (outlineLine level row).toList = line level (row.depth, row.node) ++ ['\n'] := by
  have hwidth : (2 * ((level : Int) + row.depth)).toNat = 2 * (level + row.depth) := by omega
  simp [outlineLine, line, Layout.spaces, Text.indented, hwidth]

theorem toList_outline (level : Nat) {n : Node} (h : n.isAbsent = false) :
    (n.outline level).toList = Text.terminated ((n.preorder 0).map (line level)) := by
  rw [outline, String.toList_join, ← map_nodeRows h, Text.terminated, List.flatMap_map,
    List.flatMap_map, List.flatMap_map]
  exact List.flatMap_congr fun row _ => toList_outlineLine level row

theorem outlineFrom_eq_ok (room : Int) (level : Nat) {n : Node} (hn : n.isAbsent = false)
    (h : ∀ x ∈ n.preorder 0, 2 * ((level : Int) + x.1) ≤ maxIndex ∧
      2 * ((level : Int) + x.1) < room) : n.outlineFrom room level = .ok (n.outline level) := by
  have hnodes := map_nodeRows hn
  have hrows : ∀ row ∈ n.nodeRows, levelFault? room ((level : Int) + row.depth) = none := by
    intro row hrow
    obtain ⟨hindex, hroom⟩ := h (row.depth, row.node) (hnodes ▸ List.mem_map.2 ⟨row, hrow, rfl⟩)
    dsimp only at hindex hroom
    rw [maxIndex] at hindex
    have hfits : fitsIndex ((level : Int) + row.depth) = true := by
      rw [fitsIndex, decide_eq_true_eq, minIndex, maxIndex]
      omega
    rw [levelFault?, hfits, if_neg (by simp), if_neg (by rw [maxIndex]; omega),
      if_neg (by omega)]
  rw [outlineFrom, List.findSome?_eq_none_iff.2 hrows]

theorem Legible.preorder {n : Node} (h : n.Legible) (depth : Nat) :
    ∀ x ∈ n.preorder depth, x.2.Legible := by
  rw [preorder_eq, List.forall_mem_cons]
  refine ⟨h, fun x hx => ?_⟩
  obtain ⟨child, hchild, hx⟩ := List.mem_flatMap.1 hx
  exact (h.child child hchild).preorder (depth + 1) x hx
termination_by sizeOf n
decreasing_by exact sizeOf_lt_of_mem_children hchild

/-- The lines of the outline of a legible tree are those of its nodes in preorder. -/
theorem splitOn_outline (level : Nat) {n : Node} (h : n.Legible) :
    (n.outline level).toList.splitOn '\n' = (n.preorder 0).map (line level) ++ [[]] := by
  rw [toList_outline level h.isAbsent]
  refine Text.splitOn_terminated fun text htext => ?_
  obtain ⟨x, hx, rfl⟩ := List.mem_map.1 htext
  exact Text.lineFeed_notMem_indented (h.preorder 0 x hx).caption

/-- Legible trees have the same outline if and only if they are equal. -/
theorem outline_eq_iff (level : Nat) {n m : Node} (hn : n.Legible) (hm : m.Legible) :
    n.outline level = m.outline level ↔ n.sameAs m = true := by
  rw [← entries_eq_iff hn hm 0, entries, entries, ← map_line_inj level, ← String.toList_inj]
  constructor
  · intro h
    have hlines := congrArg (List.splitOn '\n') h
    rw [splitOn_outline level hn, splitOn_outline level hm] at hlines
    exact List.append_cancel_right hlines
  · intro h
    rw [toList_outline level hn.isAbsent, toList_outline level hm.isAbsent, h]

end Cmm.Node

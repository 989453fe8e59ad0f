import Cmm.Proofs.Node.Alike

/-!
# Printing two programs in a row

The text of declarations behind each other is their texts behind each other, with whatever tab width
or without one.
-/

namespace Cmm

namespace Layout

variable {room : Int} {front back : List Item}

theorem writeTo_eq (written : String) (items : List Item) :
    writeTo written items = ⟨written ++ (write items).text, (write items).fault⟩ := by
  have hwritten : ∀ w w', writeTo (w ++ w') items =
      ⟨w ++ (writeTo w' items).text, (writeTo w' items).fault⟩ := by
    intro w w'
    induction items generalizing w' with
    | nil => rfl
    | cons item rest ih =>
        cases item with
        | text content =>
            simp only [writeTo]
            rw [String.append_assoc, ih]
        | indent width =>
            simp only [writeTo]
            split
            · rw [String.append_assoc, ih]
            · rfl
        | fault f => rfl
  have h := hwritten written ""
  rwa [String.append_empty] at h

theorem writeHeld_append (h : (writeHeld room front).fault = none) :
    writeHeld room (front ++ back) =
      ⟨(writeHeld room front).text ++ (writeHeld room back).text,
        (writeHeld room back).fault⟩ := by
  rw [writeHeld, write] at h
  rw [writeHeld, write, List.map_append, writeTo_append, if_pos h, writeTo_eq]
  rfl

end Layout

namespace Node

theorem declarations_append (tab indent : Int) (xs ys : List Node) :
    declarations tab indent (xs ++ ys) =
      declarations tab indent xs ++ declarations tab indent ys := by
  induction xs with
  | nil => rfl
  | cons x xs ih => rw [List.cons_append, declarations, declarations, ih, List.append_assoc]

theorem map_node_rows (n : Node) (depth depth' : Nat) (slot slot' : String) :
    (n.rows depth slot).map Row.node = (n.rows depth' slot').map Row.node := by
  rw [rows_eq, rows_eq, List.map_cons, List.map_cons, List.map_flatMap, List.map_flatMap]
  congr 1
  apply List.flatMap_congr
  rintro ⟨slot, child⟩ hmem
  exact child.map_node_rows (depth + 1) (depth' + 1) slot slot
termination_by sizeOf n
decreasing_by exact sizeOf_lt_of_mem_slots hmem

theorem isFlat_eq_all_slots (n : Node) :
    n.isFlat = (!n.opensBlock && n.slots.all fun slot => slot.2.isFlat) := by
  have hrows : ∀ (m : Node) (depth : Nat) (slot : String),
      (m.rows depth slot).all (fun row => !row.node.opensBlock) = m.isFlat := by
    intro m depth slot
    have hall := congrArg (List.all · fun m => !m.opensBlock) (m.map_node_rows depth 0 slot "")
    rw [List.all_map, List.all_map] at hall
    exact hall.trans m.isFlat_eq.symm
  rw [isFlat_eq, rows_eq, List.all_cons, List.all_flatMap]
  congr 2
  funext slot
  exact hrows slot.2 1 slot.1

theorem isFlat_program (ds : List Node) (p : Position) :
    (program (.list .declarations ds p) p).isFlat = ds.all isFlat := by
  have hitems := congrArg (List.all · isFlat) (List.zipIdx_map_fst 0 ds)
  rw [List.all_map] at hitems
  rw [isFlat_eq_all_slots]
  change (true && ((Node.list .declarations ds p).isFlat && true)) = _
  rw [Bool.true_and, Bool.and_true, isFlat_eq_all_slots]
  change (true && List.all (List.map _ _) _) = _
  rw [Bool.true_and, List.all_map]
  exact hitems

theorem printWith_program (room : Int) (tab : Option Int) (ds : List Node) (p : Position) :
    (program (.list .declarations ds p) p).printWith room tab = match tab with
      | some width => Layout.writeHeld room (declarations width 0 ds)
      | none =>
        if ds.all isFlat then Layout.writeHeld room (declarations 0 0 ds)
        else ⟨"", some .noTabWidth⟩ := by
  have hitems : ∀ width, [program (.list .declarations ds p) p].flatMap (items width 0) =
      declarations width 0 ds := fun width => List.append_nil _
  cases tab with
  | some width => exact congrArg (Layout.writeHeld room) (hitems width)
  | none =>
      rw [printWith, isFlat_program, printAll, hitems]

/-- Behind declarations that are printed without a fault others are printed as on their own. -/
theorem printWith_append {room : Int} {tab : Option Int} {xs : List Node} {p : Position}
    (h : ((program (.list .declarations xs p) p).printWith room tab).fault = none) (ys : List Node)
    (q r : Position) :
    let front := (program (.list .declarations xs p) p).printWith room tab
    let back := (program (.list .declarations ys q) q).printWith room tab
    let whole := (program (.list .declarations (xs ++ ys) r) r).printWith room tab
    whole.fault = back.fault ∧ (back.fault = none → whole.text = front.text ++ back.text) := by
  dsimp only
  rw [printWith_program] at h
  rw [printWith_program, printWith_program, printWith_program]
  cases tab with
  | some width =>
      dsimp only at h ⊢
      rw [declarations_append, Layout.writeHeld_append h]
      exact ⟨rfl, fun _ => rfl⟩
  | none =>
      dsimp only at h ⊢
      by_cases hxs : xs.all isFlat
      · rw [if_pos hxs] at h
        by_cases hys : ys.all isFlat
        · rw [if_pos hxs, if_pos hys, if_pos (by rw [List.all_append, hxs, hys]; rfl),
            declarations_append, Layout.writeHeld_append h]
          exact ⟨rfl, fun _ => rfl⟩
        · rw [if_neg hys, if_neg (by simp [hxs, hys])]
          exact ⟨rfl, fun h => by cases h⟩
      · rw [if_neg hxs] at h
        cases h

end Node

end Cmm

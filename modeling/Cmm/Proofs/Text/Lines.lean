/-!
# Lines

A text of lines that all end in a line feed is split at the line feeds into these lines and an empty
one, and an indented line has one indentation only.
-/

namespace Cmm.Text

def terminated (lines : List (List Char)) : List Char := lines.flatMap (· ++ ['\n'])

theorem terminated_cons (line : List Char) (lines : List (List Char)) :
    terminated (line :: lines) = line ++ '\n' :: terminated lines := by
  simp [terminated]

theorem splitOn_terminated {lines : List (List Char)} (h : ∀ line ∈ lines, '\n' ∉ line) :
    (terminated lines).splitOn '\n' = lines ++ [[]] := by
  have hjoin : terminated lines = ['\n'].intercalate (lines ++ [[]]) := by
    induction lines with
    | nil => rfl
    | cons line rest ih =>
        rw [List.forall_mem_cons] at h
        rw [terminated_cons, ih h.2]
        cases rest <;> simp [List.intercalate]
  rw [hjoin, List.splitOn_intercalate]
  · simpa [or_imp, forall_and] using h
  · simp

theorem getElem?_of_append_nil {lines : List (List Char)} {line : List Char} {i : Nat}
    (h : (lines ++ [[]])[i]? = some line) (hne : line ≠ []) : lines[i]? = some line := by
  by_cases hi : i < lines.length
  · rwa [List.getElem?_append_left hi] at h
  · rw [List.getElem?_append_right (Nat.le_of_not_lt hi)] at h
    exact absurd (List.mem_singleton.1 (List.mem_of_getElem? h)) hne

/-! ## Indentation -/

def indented (width : Nat) (text : List Char) : List Char := List.replicate width ' ' ++ text

theorem lineFeed_notMem_indented {width : Nat} {text : List Char} (h : '\n' ∉ text) :
    '\n' ∉ indented width text := by
  simp [indented, h]

theorem dropWhile_indented {text : List Char} (h : text.head? ≠ some ' ') (width : Nat) :
    (indented width text).dropWhile (· = ' ') = text := by
  induction width with
  | zero =>
      cases text with
      | nil => rfl
      | cons c rest =>
          have hc : c ≠ ' ' := fun hc => h (by rw [hc, List.head?_cons])
          simp [indented, hc]
  | succ width ih => simpa [indented, List.replicate_succ] using ih

theorem indented_inj {width width' : Nat} {text text' : List Char} (h : text.head? ≠ some ' ')
    (h' : text'.head? ≠ some ' ') :
    indented width text = indented width' text' ↔ width = width' ∧ text = text' := by
  refine ⟨fun heq => ?_, fun ⟨hwidth, htext⟩ => by rw [hwidth, htext]⟩
  have htext : text = text' := by
    rw [← dropWhile_indented h width, heq, dropWhile_indented h' width']
  have hlength := congrArg List.length heq
  simp only [indented, htext, List.length_append, List.length_replicate] at hlength
  exact ⟨by omega, htext⟩

end Cmm.Text

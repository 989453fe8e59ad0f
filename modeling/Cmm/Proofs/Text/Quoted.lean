import Cmm.Text.Quoted
import Mathlib.Data.Nat.Digits.Defs

/-!
# Quoted texts are printable

Whatever a text holds, its quoted form has only printable characters, so it takes up one line.
-/

namespace Cmm.Text

def Printable (text : List Char) : Prop := ∀ c ∈ text, isPrintable c = true

theorem printable_of_all {text : List Char} (h : text.all isPrintable = true) : Printable text :=
  List.all_eq_true.1 h

theorem printable_append {front back : List Char} :
    Printable (front ++ back) ↔ Printable front ∧ Printable back :=
  List.forall_mem_append

theorem Printable.lineFeed_notMem {text : List Char} (h : Printable text) : '\n' ∉ text :=
  fun hmem => absurd (h _ hmem) (by decide)

theorem isPrintable_of_ascii {c : Char} (h : 0x20 ≤ c.toNat ∧ c.toNat < 0x7F) :
    isPrintable c = true := by
  rw [isPrintable, hiddenRanges, inRanges, if_neg (by omega), decide_eq_false (by omega),
    Bool.false_or, inRanges, if_pos h.2]
  rfl

/-! ## Digits -/

theorem isPrintable_digitChar (n : Nat) : isPrintable n.digitChar = true := by
  have hdigits : ∀ m < 16, 0x20 ≤ (Nat.digitChar m).toNat ∧ (Nat.digitChar m).toNat < 0x7F := by
    decide
  by_cases hn : n < 16
  · exact isPrintable_of_ascii (hdigits n hn)
  · have hother : ∀ m < 16, n ≠ m := by
      intro m hm
      omega
    have hlast : n.digitChar = '*' := by
      unfold Nat.digitChar
      repeat rw [if_neg (hother _ (by decide))]
    rw [hlast]
    exact isPrintable_of_ascii (by decide)

theorem printable_toDigits {base : Nat} (hbase : 1 < base) (n : Nat) :
    Printable (Nat.toDigits base n) := by
  induction n using Nat.strongRecOn with
  | ind n ih =>
      have hlast : ∀ d : Nat, Printable [d.digitChar] := fun d =>
        List.forall_mem_singleton.2 (isPrintable_digitChar d)
      rw [Nat.toDigits_eq_if hbase]
      split
      · exact hlast n
      · rename_i hle
        have hlt : n / base < n := Nat.div_lt_self (by omega) hbase
        exact printable_append.2 ⟨ih _ hlt, hlast _⟩

theorem printable_toString (n : Int) : Printable (toString n).toList := by
  rw [Int.toString_eq_repr, Int.repr_eq_if]
  split
  · simpa using printable_toDigits (by decide) n.toNat
  · rw [String.toList_append, printable_append]
    exact ⟨List.forall_mem_singleton.2 (isPrintable_of_ascii (by decide)),
      by simpa using printable_toDigits (by decide) (-n).toNat⟩

/-! ## Quoted texts -/

theorem printable_hexadecimal (width n : Nat) : Printable (hexadecimal width n) := by
  refine printable_append.2 ⟨fun c hc => ?_, printable_toDigits (by decide) n⟩
  rw [List.eq_of_mem_replicate hc]
  exact isPrintable_digitChar 0

theorem printable_escape {c : Char} (hc : isPrintable c = true) : Printable ['\\', c] :=
  List.forall_mem_cons.2 ⟨isPrintable_of_ascii (by decide), List.forall_mem_singleton.2 hc⟩

theorem printable_codePoint (c : Char) : Printable (codePoint c) := by
  unfold codePoint
  split
  · exact printable_append.2 ⟨printable_escape (isPrintable_of_ascii (by decide)), printable_hexadecimal 2 _⟩
  split
  · exact printable_append.2 ⟨printable_escape (isPrintable_of_ascii (by decide)), printable_hexadecimal 4 _⟩
  · exact printable_append.2 ⟨printable_escape (isPrintable_of_ascii (by decide)), printable_hexadecimal 8 _⟩

theorem printable_escaped {quote : Char} (hquote : isPrintable quote = true) (c : Char) :
    Printable (escaped quote c) := by
  unfold escaped
  split
  · rename_i hc
    rcases hc with rfl | rfl
    · exact printable_escape hquote
    · exact printable_escape (isPrintable_of_ascii (by decide))
  split
  · exact printable_escape (isPrintable_of_ascii (by decide))
  split
  · exact printable_escape (isPrintable_of_ascii (by decide))
  split
  · exact printable_escape (isPrintable_of_ascii (by decide))
  split
  · rename_i hprintable
    exact List.forall_mem_singleton.2 hprintable
  · exact printable_codePoint c

theorem printable_quoted (text : String) : Printable (quoted text).toList := by
  have hquote : isPrintable (quoteFor text.toList) = true := by
    unfold quoteFor
    split <;> exact isPrintable_of_ascii (by decide)
  rw [quoted, String.toList_ofList]
  refine List.forall_mem_cons.2 ⟨hquote, printable_append.2 ⟨fun c hc => ?_, ?_⟩⟩
  · obtain ⟨d, -, hd⟩ := List.mem_flatMap.1 hc
    exact printable_escaped hquote d c hd
  · exact List.forall_mem_singleton.2 hquote

end Cmm.Text

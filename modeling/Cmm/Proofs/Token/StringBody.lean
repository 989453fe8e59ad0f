import Cmm.Proofs.Token.Spelled

/-!
# The characters of string literals

Behind its opening quote a string literal goes on over plain characters and escapes, up to a quote
that no backslash takes along, or up to the end of the line.
-/

namespace Cmm

/-- Characters behind an opening quote that do not close the literal, and whether one of their
escapes is bad. -/
inductive StringBody : List Char → Bool → Prop
  | nil : StringBody [] false
  | plain {c : Char} {rest : List Char} {bad : Bool} (hquote : c ≠ '"') (hback : c ≠ '\\')
      (hfeed : c ≠ '\n') (h : StringBody rest bad) : StringBody (c :: rest) bad
  | escape {c : Char} {rest : List Char} {bad : Bool} (hfeed : c ≠ '\n')
      (h : StringBody rest bad) : StringBody ('\\' :: c :: rest) (!isEscape c || bad)

def AtLineEnd (text : List Char) : Prop := ∀ c ∈ text.head?, c = '\n'

theorem scanString_of_atLineEnd {text : List Char} (h : AtLineEnd text) :
    scanString text = ⟨[], text, false, false⟩ := by
  cases text with
  | nil => rfl
  | cons c rest =>
      obtain rfl := h c rfl
      rfl

theorem scanString_backslash {text : List Char} (h : AtLineEnd text) :
    scanString ('\\' :: text) = ⟨['\\'], text, false, false⟩ := by
  cases text with
  | nil => rfl
  | cons c rest =>
      obtain rfl := h c rfl
      rfl

namespace StringBody

variable {body : List Char} {bad : Bool}

theorem scanString_append (h : StringBody body bad) (text : List Char) :
    scanString (body ++ text) = (scanString text).push body bad := by
  induction h with
  | nil => rfl
  | plain hquote hback hfeed _ ih =>
      rw [List.cons_append, scanString_cons hquote hfeed hback, ih]
      rfl
  | escape hfeed _ ih =>
      rw [List.cons_append, List.cons_append, scanString_escape hfeed, ih]
      simp [StringScan.push, Bool.or_assoc]

theorem scanString_closed (h : StringBody body bad) (rest : List Char) :
    scanString (body ++ '"' :: rest) = ⟨body ++ ['"'], rest, true, bad⟩ := by
  rw [h.scanString_append]
  simp [scanString, StringScan.push]

theorem scanString_open (h : StringBody body bad) {tail rest : List Char}
    (htail : tail = [] ∨ tail = ['\\']) (hrest : AtLineEnd rest) :
    scanString (body ++ (tail ++ rest)) = ⟨body ++ tail, rest, false, bad⟩ := by
  rw [h.scanString_append]
  rcases htail with rfl | rfl
  · rw [List.nil_append, scanString_of_atLineEnd hrest]
    simp [StringScan.push]
  · rw [List.singleton_append, scanString_backslash hrest]
    simp [StringScan.push]

theorem exists_of_text (text : List Char) : ∃ body bad, StringBody body bad ∧
    ((∃ rest, text = body ++ '"' :: rest) ∨
      ∃ tail rest, (tail = [] ∨ tail = ['\\']) ∧ AtLineEnd rest ∧ text = body ++ (tail ++ rest)) := by
  fun_induction scanString text with
  | case1 => exact ⟨[], false, .nil, .inr ⟨[], [], .inl rfl, by simp [AtLineEnd], rfl⟩⟩
  | case2 rest => exact ⟨[], false, .nil, .inl ⟨rest, rfl⟩⟩
  | case3 rest =>
      exact ⟨[], false, .nil, .inr ⟨[], '\n' :: rest, .inl rfl, by simp [AtLineEnd], rfl⟩⟩
  | case4 => exact ⟨[], false, .nil, .inr ⟨['\\'], [], .inr rfl, by simp [AtLineEnd], rfl⟩⟩
  | case5 rest =>
      exact ⟨[], false, .nil, .inr ⟨['\\'], '\n' :: rest, .inr rfl, by simp [AtLineEnd], rfl⟩⟩
  | case6 c rest hfeed ih =>
      obtain ⟨body, bad, hbody, hend⟩ := ih
      refine ⟨_, _, hbody.escape fun h => hfeed h, hend.imp ?_ ?_⟩
      · rintro ⟨rest', rfl⟩
        exact ⟨rest', rfl⟩
      · rintro ⟨tail, rest', htail, hrest, rfl⟩
        exact ⟨tail, rest', htail, hrest, rfl⟩
  | case7 c rest hquote hfeed hlone hline hpair ih =>
      have hback := ne_backslash hlone hpair
      obtain ⟨body, bad, hbody, hend⟩ := ih
      refine ⟨_, _, hbody.plain hquote hback hfeed, hend.imp ?_ ?_⟩
      · rintro ⟨rest', rfl⟩
        exact ⟨rest', rfl⟩
      · rintro ⟨tail, rest', htail, hrest, rfl⟩
        exact ⟨tail, rest', htail, hrest, rfl⟩

end StringBody

end Cmm

import Cmm.Text.Utf8
import Mathlib.Data.List.TakeWhile
import Mathlib.Tactic.SplitIfs

/-!
# Decoding what was encoded

The first byte of an encoded character tells its length and the interval of the second byte, and each
byte that follows adds six bits to the value.
-/

namespace Cmm.Text.Utf8

theorem toNat_ofNat {n : Nat} (h : n < 256) : (UInt8.ofNat n).toNat = n := by
  rw [UInt8.toNat_ofNat', Nat.mod_eq_of_lt h]

variable {position start n low high value : Nat} {done : List Char} {first : UInt8}

/-! ## Bytes in a row -/

theorem step_single (h : n < 0x80) : step ⟨position, done, none⟩ (UInt8.ofNat n) =
    .ok ⟨position + 1, Char.ofNat n :: done, none⟩ := by
  rw [step]
  dsimp only
  rw [toNat_ofNat (by omega), if_pos h]

theorem step_lead {p : Pending} (h : 0x80 ≤ n) (hn : n < 256)
    (hlead : lead? position (UInt8.ofNat n) = some p) :
    step ⟨position, done, none⟩ (UInt8.ofNat n) = .ok ⟨position + 1, done, some p⟩ := by
  rw [step]
  dsimp only
  rw [toNat_ofNat hn, if_neg (by omega), hlead]

theorem step_more {more : Nat} (hlow : low ≤ n) (hhigh : n ≤ high) (hn : n < 256) :
    step ⟨position, done, some ⟨start, first, value, low, high, more + 1⟩⟩ (UInt8.ofNat n) =
      .ok ⟨position + 1, done,
        some ⟨start, first, 64 * value + (n - 0x80), 0x80, 0xBF, more⟩⟩ := by
  rw [step]
  dsimp only
  rw [toNat_ofNat hn, if_neg (by omega)]

theorem step_last (hlow : low ≤ n) (hhigh : n ≤ high) (hn : n < 256) :
    step ⟨position, done, some ⟨start, first, value, low, high, 0⟩⟩ (UInt8.ofNat n) =
      .ok ⟨position + 1, Char.ofNat (64 * value + (n - 0x80)) :: done, none⟩ := by
  rw [step]
  dsimp only
  rw [toNat_ofNat hn, if_neg (by omega)]

theorem foldlM_step_cons {s s' : State} {b : UInt8} (h : step s b = .ok s') (rest : List UInt8) :
    (b :: rest).foldlM step s = rest.foldlM step s' := by
  rw [List.foldlM_cons, h]
  rfl

/-! ## First bytes -/

theorem lead?_two (hlow : 2 ≤ n) (hhigh : n < 32) :
    lead? position (UInt8.ofNat (n + 192)) =
      some ⟨position, UInt8.ofNat (n + 192), n, 0x80, 0xBF, 0⟩ := by
  rw [lead?, toNat_ofNat (by omega)]
  rw [if_pos (by omega), Nat.add_sub_cancel]

/-- The second byte of three keeps overlong forms and surrogates out. -/
theorem exists_lead?_three (hn : n < 16) {second : Nat} (hsecond : second < 64)
    (hlong : n = 0 → 32 ≤ second) (hsurrogate : n = 13 → second < 32) : ∃ low high,
      lead? position (UInt8.ofNat (n + 224)) =
        some ⟨position, UInt8.ofNat (n + 224), n, low, high, 1⟩ ∧
      low ≤ second + 128 ∧ second + 128 ≤ high := by
  rw [lead?, toNat_ofNat (by omega)]
  by_cases hzero : n = 0
  · subst hzero
    exact ⟨_, _, rfl, by have := hlong rfl; omega, by omega⟩
  by_cases hthirteen : n = 13
  · subst hthirteen
    exact ⟨_, _, rfl, by omega, by have := hsurrogate rfl; omega⟩
  rw [if_neg (by omega), if_neg (by omega), if_neg (by omega), if_pos (by omega),
    Nat.add_sub_cancel]
  exact ⟨_, _, rfl, by omega, by omega⟩

theorem exists_lead?_four (hn : n ≤ 4) {second : Nat} (hsecond : second < 64)
    (hlong : n = 0 → 16 ≤ second) (hbeyond : n = 4 → second < 16) : ∃ low high,
      lead? position (UInt8.ofNat (n + 240)) =
        some ⟨position, UInt8.ofNat (n + 240), n, low, high, 2⟩ ∧
      low ≤ second + 128 ∧ second + 128 ≤ high := by
  rw [lead?, toNat_ofNat (by omega)]
  by_cases hzero : n = 0
  · subst hzero
    exact ⟨_, _, rfl, by have := hlong rfl; omega, by omega⟩
  by_cases hfour : n = 4
  · subst hfour
    exact ⟨_, _, rfl, by omega, by have := hbeyond rfl; omega⟩
  rw [if_neg (by omega), if_neg (by omega), if_neg (by omega), if_neg (by omega),
    if_neg (by omega), if_pos (by omega), Nat.add_sub_cancel]
  exact ⟨_, _, rfl, by omega, by omega⟩

/-! ## Characters -/

theorem foldlM_utf8EncodeChar (c : Char) (position : Nat) (done : List Char) : ∃ behind,
    (String.utf8EncodeChar c).foldlM step ⟨position, done, none⟩ =
      .ok ⟨behind, c :: done, none⟩ := by
  have hvalid : c.val.toNat < 55296 ∨ 57343 < c.val.toNat ∧ c.val.toNat < 1114112 := c.valid
  have hchar : Char.ofNat c.val.toNat = c := Char.ofNat_toNat c
  unfold String.utf8EncodeChar
  generalize c.val.toNat = v at hvalid hchar
  dsimp only
  split_ifs with hone htwo hthree
  · refine ⟨position + 1, ?_⟩
    rw [foldlM_step_cons (step_single (by omega)), hchar]
    rfl
  · have hvalue : 64 * (v / 64 % 32) + (v % 64 + 128 - 0x80) = v := by omega
    have hlead := @lead?_two position (v / 64 % 32) (by omega) (by omega)
    refine ⟨position + 1 + 1, ?_⟩
    rw [foldlM_step_cons (step_lead (by omega) (by omega) hlead),
      foldlM_step_cons (step_last (by omega) (by omega) (by omega)), hvalue, hchar]
    rfl
  · have hvalue : 64 * (64 * (v / 4096 % 16) + (v / 64 % 64 + 128 - 0x80)) +
        (v % 64 + 128 - 0x80) = v := by omega
    obtain ⟨low, high, hlead, hlow, hhigh⟩ := @exists_lead?_three position (v / 4096 % 16)
      (by omega) (v / 64 % 64) (by omega) (by omega) (by omega)
    refine ⟨position + 1 + 1 + 1, ?_⟩
    rw [foldlM_step_cons (step_lead (by omega) (by omega) hlead),
      foldlM_step_cons (step_more hlow hhigh (by omega)),
      foldlM_step_cons (step_last (by omega) (by omega) (by omega)), hvalue, hchar]
    rfl
  · have hvalue : 64 * (64 * (64 * (v / 262144 % 8) + (v / 4096 % 64 + 128 - 0x80)) +
        (v / 64 % 64 + 128 - 0x80)) + (v % 64 + 128 - 0x80) = v := by omega
    obtain ⟨low, high, hlead, hlow, hhigh⟩ := @exists_lead?_four position (v / 262144 % 8)
      (by omega) (v / 4096 % 64) (by omega) (by omega) (by omega)
    refine ⟨position + 1 + 1 + 1 + 1, ?_⟩
    rw [foldlM_step_cons (step_lead (by omega) (by omega) hlead),
      foldlM_step_cons (step_more hlow hhigh (by omega)),
      foldlM_step_cons (step_more (by omega) (by omega) (by omega)),
      foldlM_step_cons (step_last (by omega) (by omega) (by omega)), hvalue, hchar]
    rfl

theorem foldlM_encode (text : List Char) (position : Nat) (done : List Char) : ∃ behind,
    (encode text).foldlM step ⟨position, done, none⟩ =
      .ok ⟨behind, text.reverse ++ done, none⟩ := by
  induction text generalizing position done with
  | nil => exact ⟨position, rfl⟩
  | cons c rest ih =>
      obtain ⟨middle, hc⟩ := foldlM_utf8EncodeChar c position done
      obtain ⟨behind, hrest⟩ := ih middle (c :: done)
      refine ⟨behind, ?_⟩
      rw [encode, List.flatMap_cons, List.foldlM_append, hc]
      change List.foldlM step _ (encode rest) = _
      rw [hrest, List.reverse_cons, List.append_assoc]
      rfl

theorem decode_encode (text : List Char) : decode (encode text) = .ok text := by
  obtain ⟨behind, h⟩ := foldlM_encode text 0 []
  rw [decode, h, List.append_nil]
  change Except.ok text.reverse.reverse = _
  rw [List.reverse_reverse]

theorem encode_ne_nil {c : Char} {text : List Char} (h : c ∈ text) : encode text ≠ [] := by
  intro hnil
  have hc : String.utf8EncodeChar c = [] := List.flatMap_eq_nil_iff.1 hnil c h
  have hlength := String.length_utf8EncodeChar c
  rw [hc] at hlength
  exact absurd hlength (Nat.ne_of_lt c.utf8Size_pos)

/-! ## Surrogates -/

variable {surrogate? : Char → Option Nat} {text : List Char}

theorem encodeFault?_eq_none_iff :
    encodeFault? surrogate? text = none ↔ ∀ c ∈ text, surrogate? c = none := by
  have hhead := List.head?_dropWhile_not (fun c => (surrogate? c).isNone) text
  rw [encodeFault?, Option.map_eq_none_iff]
  cases hbehind : text.dropWhile fun c => (surrogate? c).isNone with
  | nil =>
      have hall := List.dropWhile_eq_nil_iff.1 hbehind
      exact ⟨fun _ c hc => Option.isNone_iff_eq_none.1 (hall c hc), fun _ => rfl⟩
  | cons c rest =>
      have hc : c ∈ text := (List.dropWhile_sublist _).subset (hbehind ▸ List.mem_cons_self)
      rw [hbehind] at hhead
      have hsome : surrogate? c ≠ none := by simpa [Option.isSome_iff_ne_none] using hhead
      exact ⟨fun hnone => absurd hnone hsome, fun hall => absurd (hall c hc) hsome⟩

theorem encodeStrict_eq_ok (h : ∀ c ∈ text, surrogate? c = none) :
    encodeStrict surrogate? text = .ok (encode text) := by
  rw [encodeStrict, encodeFault?_eq_none_iff.2 h]

theorem eq_encode_of_encodeStrict {bytes : List UInt8}
    (h : encodeStrict surrogate? text = .ok bytes) : bytes = encode text := by
  unfold encodeStrict at h
  split at h
  · cases h
  · cases h
    rfl

theorem encodeStrict_eq_error {fault : EncodeFault}
    (h : encodeStrict surrogate? text = .error fault) : ∃ c ∈ text, surrogate? c ≠ none := by
  refine Classical.byContradiction fun hnone => ?_
  cases h.symm.trans (encodeStrict_eq_ok fun c hc =>
    Classical.byContradiction fun hsome => hnone ⟨c, hc, hsome⟩)

end Cmm.Text.Utf8

import Cmm.Medium
import Cmm.Proofs.Disk
import Cmm.Proofs.Text.Utf8

/-!
# What comes of writing a text

A file that cannot be opened is left as it is.  Once it is open, it holds as much of the encoded text
as there is space for, and nothing of a text that cannot be encoded.
-/

namespace Cmm.Medium

/-- What comes of writing a text to a file, and the files behind it. -/
inductive Writes (medium : Medium) (disk : Disk) (name text : String) :
    Except Escape (Except WriteFault Unit) → Disk → Prop where
  | nullInName (h : disk.openEmpty name = .error .nullInName) :
      Writes medium disk name text (.error .nullInName) disk
  | unopened {fault : FileFault} (h : disk.openEmpty name = .error (.fault fault)) :
      Writes medium disk name text (.ok (.error (.unopened fault))) disk
  | unencodable {fault : Text.Utf8.EncodeFault} {disk' : Disk}
      (hencode : medium.encode text = .error fault) (h : disk.write name [] = .ok disk') :
      Writes medium disk name text (.error (.unencodable fault)) disk'
  | cut {n : Nat} {disk' : Disk}
      (hencode : medium.encode text = .ok (Text.Utf8.encode text.toList))
      (hspace : medium.space = some n) (hlong : n < (Text.Utf8.encode text.toList).length)
      (h : disk.write name ((Text.Utf8.encode text.toList).take n) = .ok disk') :
      Writes medium disk name text (.ok (.error .noSpace)) disk'
  | whole {disk' : Disk} (hencode : medium.encode text = .ok (Text.Utf8.encode text.toList))
      (hspace : ∀ n ∈ medium.space, (Text.Utf8.encode text.toList).length ≤ n)
      (h : disk.write name (Text.Utf8.encode text.toList) = .ok disk') :
      Writes medium disk name text (.ok (.ok ())) disk'

theorem writes (medium : Medium) (disk : Disk) (name text : String) :
    medium.Writes disk name text (medium.write disk name text).1
      (medium.write disk name text).2 := by
  unfold write
  cases hopen : disk.openEmpty name with
  | error e =>
      cases e with
      | fault fault => exact .unopened hopen
      | nullInName => exact .nullInName hopen
  | ok target =>
      obtain ⟨path, opened⟩ := target
      obtain ⟨rfl, hwrite⟩ := Disk.openEmpty_eq_ok hopen
      dsimp only
      cases hencode : medium.encode text with
      | error fault => exact .unencodable hencode (hwrite [])
      | ok bytes =>
          obtain rfl := Text.Utf8.eq_encode_of_encodeStrict hencode
          dsimp only
          by_cases hspace : ∀ n ∈ medium.space, (Text.Utf8.encode text.toList).length ≤ n
          · rw [Disk.fill_of_fits hspace, Disk.put_put]
            exact .whole hencode hspace (hwrite _)
          · obtain ⟨n, hn, hlong⟩ : ∃ n, medium.space = some n ∧
                n < (Text.Utf8.encode text.toList).length := by
              simpa using hspace
            rw [hn, Disk.fill_of_long hlong, Disk.put_put]
            exact .cut hencode hn hlong (hwrite _)

section

variable {medium : Medium} {disk disk' : Disk} {name text : String}

theorem encode_default (text : String) :
    ({} : Medium).encode text = .ok (Text.Utf8.encode text.toList) :=
  Text.Utf8.encodeStrict_eq_ok fun _ _ => rfl

theorem Writes.eq_of_write {written : Except Escape (Except WriteFault Unit)} {whole : Disk}
    (h : ({} : Medium).Writes disk name text written disk')
    (hwrite : disk.write name (Text.Utf8.encode text.toList) = .ok whole) :
    written = .ok (.ok ()) := by
  cases h with
  | nullInName hopen => cases hwrite.symm.trans (Disk.write_of_unopened hopen _)
  | unopened hopen => cases hwrite.symm.trans (Disk.write_of_unopened hopen _)
  | unencodable hencode => cases hencode.symm.trans (encode_default text)
  | cut _ hspace => cases hspace
  | whole => rfl

theorem Writes.write_eq (h : medium.Writes disk name text (.ok (.ok ())) disk') :
    disk.write name (Text.Utf8.encode text.toList) = .ok disk' := by
  cases h with
  | whole _ _ hwrite => exact hwrite

theorem Writes.unchanged {fault : WriteFault}
    (h : medium.Writes disk name text (.ok (.error fault)) disk') (hfault : fault ≠ .noSpace) :
    disk' = disk := by
  cases h with
  | unopened => rfl
  | cut => exact absurd rfl hfault

theorem write_default {whole : Disk}
    (h : disk.write name (Text.Utf8.encode text.toList) = .ok whole) :
    ({} : Medium).write disk name text = (.ok (.ok ()), whole) := by
  have hwrites := ({} : Medium).writes disk name text
  generalize ({} : Medium).write disk name text = written at hwrites ⊢
  obtain ⟨written, disk'⟩ := written
  obtain rfl := hwrites.eq_of_write h
  cases h.symm.trans hwrites.write_eq
  rfl

theorem encode_pos {fault : Text.Utf8.EncodeFault} (h : medium.encode text = .error fault) :
    0 < (Text.Utf8.encode text.toList).length := by
  obtain ⟨c, hc, -⟩ := Text.Utf8.encodeStrict_eq_error h
  exact List.length_pos_iff.2 (Text.Utf8.encode_ne_nil hc)

end

end Cmm.Medium

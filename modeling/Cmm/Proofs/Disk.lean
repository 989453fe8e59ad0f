import Cmm.Disk
import Mathlib.Data.List.Basic

/-!
# Reading what was written

A file that was written under a name is the file that the name leads to.
-/

namespace Cmm.Disk

variable {disk disk' : Disk} {here there path : Path} {name : String} {bytes : List UInt8}

theorem isDirectory_put (disk : Disk) (path other : Path) (bytes : List UInt8) :
    (disk.put path bytes).isDirectory other = disk.isDirectory other := rfl

/-! ## Following components -/

/-- Components that lead to a directory are all directories, so that those behind them are followed
from there, and a file that is put somewhere does not matter. -/
theorem follow_append (parts more : List String)
    (h : disk.follow here parts = .ok (.directory there)) (path : Path) (bytes : List UInt8) :
    (disk.put path bytes).follow here (parts ++ more) =
      (disk.put path bytes).follow there more := by
  induction parts generalizing here with
  | nil =>
      cases h
      rfl
  | cons part rest ih =>
      rw [List.cons_append, follow]
      rw [follow] at h
      by_cases hstay : part = "" ∨ part = "."
      · rw [if_pos hstay] at h ⊢
        exact ih h
      rw [if_neg hstay] at h ⊢
      by_cases hup : part = ".."
      · rw [if_pos hup] at h ⊢
        exact ih h
      rw [if_neg hup] at h ⊢
      by_cases hlong : componentLimit < part.utf8ByteSize
      · rw [if_pos hlong] at h
        cases h
      rw [if_neg hlong] at h ⊢
      dsimp only at h ⊢
      rw [isDirectory_put]
      by_cases hdirectory : disk.isDirectory (here ++ [part])
      · rw [if_pos hdirectory] at h ⊢
        exact ih h
      rw [if_neg hdirectory] at h
      split at h
      · split at h
        · cases h
        · cases h
      · split at h
        · cases h
        · cases h

structure Names (disk : Disk) (here : Path) (last : String) : Prop where
  ne_empty : last ≠ ""
  ne_here : last ≠ "."
  ne_up : last ≠ ".."
  length : ¬componentLimit < last.utf8ByteSize
  free : disk.isDirectory (here ++ [last]) = false

theorem Names.follow_put {last : String} (h : disk.Names here last) (bytes : List UInt8) :
    (disk.put (here ++ [last]) bytes).follow here [last] = .ok (.file (here ++ [last]) bytes) := by
  rw [follow, if_neg (by simp [h.ne_empty, h.ne_here]), if_neg h.ne_up, if_neg h.length]
  dsimp only
  rw [isDirectory_put, h.free, file?_put, if_pos rfl]
  rfl

/-! ## Names -/

theorem ne_empty_of_getLast? {parts : List String} {last : String}
    (h : (parts.reverse.dropWhile (· = "")).reverse.getLast? = some last) : last ≠ "" := by
  have hhead := List.head?_dropWhile_not (fun part => decide (part = "")) parts.reverse
  rw [List.getLast?_reverse] at h
  rw [h] at hhead
  simpa using hhead

/-- A name under which a file can be written leads to a directory, and its last component names the
file there. -/
theorem writeTarget_eq_ok (h : disk.writeTarget name = .ok path) : name ≠ "" ∧
    ∃ parts here last, components name = parts ++ [last] ∧
      disk.follow [] parts = .ok (.directory here) ∧ disk.Names here last ∧
      path = here ++ [last] := by
  unfold writeTarget at h
  split at h
  · cases h
  rename_i hname
  dsimp only at h
  split at h
  · cases h
  rename_i last hlast
  have hempty := ne_empty_of_getLast? hlast
  cases hfollow :
      disk.follow [] ((components name).reverse.dropWhile (· = "")).reverse.dropLast with
  | error e =>
      rw [hfollow] at h
      cases h
  | ok target =>
      rw [hfollow] at h
      cases target with
      | file => cases h
      | missing => cases h
      | directory here =>
          dsimp only [bind, Except.bind] at h
          split at h
          · cases h
          rename_i hnamed
          split at h
          · cases h
          rename_i hlength
          split at h
          · cases h
          rename_i hfree
          cases h
          simp only [not_or, not_not] at hnamed
          obtain ⟨hnamed, hhere, hup⟩ := hnamed
          rw [hnamed] at hfollow hlast
          refine ⟨hname, (components name).dropLast, here, last, ?_, hfollow, ?_, rfl⟩
          · exact (List.dropLast_append_getLast? last hlast).symm
          · exact ⟨hempty, hhere, hup, hlength, by simpa using hfree⟩

theorem readTarget_put (h : disk.writeTarget name = .ok path) (bytes : List UInt8) :
    (disk.put path bytes).readTarget name = .ok bytes := by
  obtain ⟨hname, parts, here, last, hparts, hfollow, hnames, rfl⟩ := writeTarget_eq_ok h
  rw [readTarget, if_neg hname, hparts, follow_append _ _ hfollow, hnames.follow_put]
  rfl

theorem opening_eq_ok {α : Type} {target : Except FileCause α} {a : α}
    (h : opening name target = .ok a) :
    target = .ok a ∧ ∀ {β : Type} (b : β), opening name (.ok b) = .ok b := by
  unfold opening at h ⊢
  split at h
  · cases h
  split at h
  · cases h
  refine ⟨?_, ?_⟩
  · cases target with
    | error e => cases h
    | ok b =>
        cases h
        rfl
  · intro β b
    rw [if_neg (by assumption), if_neg (by assumption)]
    rfl

theorem opening_ne_nullInName {α : Type} {target : Except FileCause α}
    (hname : '\x00' ∉ name.toList) : opening name target ≠ .error .nullInName := by
  unfold opening
  rw [if_neg hname]
  split
  · exact fun h => OpenError.noConfusion (Except.error.inj h)
  · cases target with
    | error cause => exact fun h => OpenError.noConfusion (Except.error.inj h)
    | ok a => exact nofun

/-! ## Writing -/

theorem put_put (disk : Disk) (path : Path) (bytes other : List UInt8) :
    (disk.put path bytes).put path other = disk.put path other := by
  simp [put, List.filter_filter]

/-- The files with the bytes under a name, as they are once the file is open and filled. -/
def write (disk : Disk) (name : String) (bytes : List UInt8) : Except OpenError Disk :=
  (opening name (disk.writeTarget name)).map fun path => disk.put path bytes

theorem openEmpty_eq_ok {opened : Disk} (h : disk.openEmpty name = .ok (path, opened)) :
    opened = disk.put path [] ∧ ∀ bytes, disk.write name bytes = .ok (disk.put path bytes) := by
  unfold openEmpty at h
  cases hopening : opening name (disk.writeTarget name) with
  | error e =>
      rw [hopening] at h
      cases h
  | ok path =>
      rw [hopening] at h
      cases h
      exact ⟨rfl, fun bytes => by rw [write, hopening]; rfl⟩

theorem write_of_unopened {e : OpenError} (h : disk.openEmpty name = .error e)
    (bytes : List UInt8) : disk.write name bytes = .error e := by
  unfold openEmpty at h
  unfold write
  cases hopening : opening name (disk.writeTarget name) with
  | error e =>
      rw [hopening] at h
      cases h
      rfl
  | ok path =>
      rw [hopening] at h
      cases h

theorem fill_of_fits {space : Option Nat} (h : ∀ n ∈ space, bytes.length ≤ n) (disk : Disk)
    (path : Path) : disk.fill path bytes space = (.ok (), disk.put path bytes) := by
  cases space with
  | none => rfl
  | some n =>
      have hn : bytes.length ≤ n := h n rfl
      rw [fill, if_pos hn, List.take_of_length_le hn]

theorem fill_of_long {n : Nat} (h : n < bytes.length) (disk : Disk) (path : Path) :
    disk.fill path bytes (some n) = (.error .noSpace, disk.put path (bytes.take n)) := by
  rw [fill, if_neg (Nat.not_le.2 h)]

theorem write_of_write (h : disk.write name bytes = .ok disk') (other : List UInt8) :
    ∃ disk'', disk.write name other = .ok disk'' := by
  cases hopen : disk.openEmpty name with
  | error e => cases h.symm.trans (write_of_unopened hopen bytes)
  | ok target => exact ⟨_, (openEmpty_eq_ok hopen).2 other⟩

theorem write_eq_ok (h : disk.write name bytes = .ok disk') :
    ∃ path, opening name (disk.writeTarget name) = .ok path ∧ disk' = disk.put path bytes := by
  unfold write at h
  cases hopening : opening name (disk.writeTarget name) with
  | error e =>
      rw [hopening] at h
      cases h
  | ok path =>
      rw [hopening] at h
      exact ⟨path, rfl, (Except.ok.inj h).symm⟩

theorem write_ne_nullInName (hname : '\x00' ∉ name.toList) :
    disk.write name bytes ≠ .error .nullInName := by
  unfold write
  cases hopening : opening name (disk.writeTarget name) with
  | error e =>
      intro h
      cases h
      exact opening_ne_nullInName hname hopening
  | ok path => exact nofun

theorem read_of_write (h : disk.write name bytes = .ok disk') : disk'.read name = .ok bytes := by
  obtain ⟨path, hopening, rfl⟩ := write_eq_ok h
  obtain ⟨htarget, hopen⟩ := opening_eq_ok hopening
  rw [read, readTarget_put htarget, hopen]

/-! ## What writing changes -/

/-- The name leads to a file with the bytes, and everything else is as it was. -/
structure Replaced (disk : Disk) (name : String) (bytes : List UInt8) (disk' : Disk) : Prop where
  read : disk'.read name = .ok bytes
  directories : disk'.directories = disk.directories
  files : ∃ path, disk.writeTarget name = .ok path ∧ disk'.file? path = some bytes ∧
    ∀ other, other ≠ path → disk'.file? other = disk.file? other

theorem replaced_of_write (h : disk.write name bytes = .ok disk') :
    disk.Replaced name bytes disk' := by
  have hread := read_of_write h
  obtain ⟨path, hopening, rfl⟩ := write_eq_ok h
  refine ⟨hread, rfl, path, (opening_eq_ok hopening).1, ?_, fun other hother => ?_⟩
  · rw [file?_put, if_pos rfl]
  · rw [file?_put, if_neg hother]

/-! ## A file in the top directory -/

theorem components_f : components "f" = ["f"] := by
  rw [components, String.splitOn, if_neg (by decide), String.splitOnAux,
    if_neg (by decide), if_neg (by decide), String.splitOnAux,
    if_pos (by decide)]
  decide

theorem openEmpty_f (hfree : disk.isDirectory ["f"] = false) :
    disk.openEmpty "f" = .ok (["f"], disk.put ["f"] []) := by
  have htarget : disk.writeTarget "f" = .ok ["f"] := by
    rw [writeTarget, if_neg (by decide), components_f]
    change (if componentLimit < "f".utf8ByteSize then Except.error FileCause.nameTooLong
      else if disk.isDirectory ["f"] then .error .isDirectory else .ok ["f"]) = .ok ["f"]
    rw [if_neg (by decide), hfree]
    rfl
  rw [openEmpty, htarget]
  rfl

theorem write_f (hfree : disk.isDirectory ["f"] = false) (bytes : List UInt8) :
    disk.write "f" bytes = .ok (disk.put ["f"] bytes) := by
  exact (openEmpty_eq_ok (openEmpty_f hfree)).2 bytes

theorem read_put_f (hfree : disk.isDirectory ["f"] = false) (bytes : List UInt8) :
    (disk.put ["f"] bytes).read "f" = .ok bytes :=
  read_of_write (write_f hfree bytes)

end Cmm.Disk

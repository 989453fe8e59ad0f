import Cmm.Text.Quoted

/-!
A small tree of files.

A name is a path of components with slashes between them.  It is followed one component at a time
from the top directory on, so every component but the last must be a directory; empty components
and `.` stay where they are, and `..` goes up, at most to the top.  Names and components may only
be so long.

A file is written in two steps.  Opening it empties it, and filling it may come to an end early,
where there is no more space; what was written up to there is kept.
-/

namespace Cmm

abbrev Path := List String

inductive FileCause where
  | notFound
  | notDirectory
  | isDirectory
  | nameTooLong
  deriving DecidableEq, Repr

structure FileFault where
  cause : FileCause
  name : String
  deriving DecidableEq, Repr

def FileCause.message : FileCause → String
  | .notFound => "[Errno 2] No such file or directory"
  | .notDirectory => "[Errno 20] Not a directory"
  | .isDirectory => "[Errno 21] Is a directory"
  | .nameTooLong => "[Errno 36] File name too long"

def FileFault.message (fault : FileFault) : String :=
  fault.cause.message ++ ": " ++ Text.quoted fault.name

/-- Why a file was not opened: a null character in the name is no matter of the tree. -/
inductive OpenError where
  | fault (fault : FileFault)
  | nullInName
  deriving DecidableEq, Repr

def OpenError.message : OpenError → String
  | .fault f => f.message
  | .nullInName => "embedded null byte"

/-- Why a file was not written, or not to its end. -/
inductive WriteFault where
  | unopened (fault : FileFault)
  | noSpace
  deriving DecidableEq, Repr

def WriteFault.message : WriteFault → String
  | .unopened fault => fault.message
  | .noSpace => "[Errno 28] No space left on device"

structure Disk where
  directories : List Path
  files : List (Path × List UInt8)
  deriving DecidableEq, Repr

namespace Disk

def empty : Disk := ⟨[], []⟩

inductive Target where
  | directory (path : Path)
  | file (path : Path) (bytes : List UInt8)
  | missing (path : Path)
  deriving DecidableEq, Repr

def isDirectory (disk : Disk) (path : Path) : Bool := path = [] || path ∈ disk.directories

def file? (disk : Disk) (path : Path) : Option (List UInt8) := disk.files.lookup path

def nameLimit : Nat := 4095

def componentLimit : Nat := 255

def follow (disk : Disk) (here : Path) : List String → Except FileCause Target
  | [] => .ok (.directory here)
  | component :: rest =>
    if component = "" ∨ component = "." then disk.follow here rest
    else if component = ".." then disk.follow here.dropLast rest
    else if componentLimit < component.utf8ByteSize then .error .nameTooLong
    else
      let path := here ++ [component]
      if disk.isDirectory path then disk.follow path rest
      else match disk.file? path with
        | some bytes => if rest = [] then .ok (.file path bytes) else .error .notDirectory
        | none => if rest = [] then .ok (.missing path) else .error .notFound

def components (name : String) : List String := name.splitOn "/"

def readTarget (disk : Disk) (name : String) : Except FileCause (List UInt8) :=
  if name = "" then .error .notFound
  else do
    match ← disk.follow [] (components name) with
    | .file _ bytes => .ok bytes
    | .directory _ => .error .isDirectory
    | .missing _ => .error .notFound

/-- The place that a name gives for a file, which may exist already. -/
def writeTarget (disk : Disk) (name : String) : Except FileCause Path :=
  if name = "" then .error .notFound
  else do
    let parts := components name
    let named := (parts.reverse.dropWhile (· = "")).reverse
    match named.getLast? with
    | none => .error .isDirectory
    | some last =>
      match ← disk.follow [] named.dropLast with
      | .file .. => .error .notDirectory
      | .missing _ => .error .notFound
      | .directory here =>
        if named ≠ parts ∨ last = "." ∨ last = ".." then .error .isDirectory
        else if componentLimit < last.utf8ByteSize then .error .nameTooLong
        else if disk.isDirectory (here ++ [last]) then .error .isDirectory
        else .ok (here ++ [last])

def opening {α : Type} (name : String) (target : Except FileCause α) : Except OpenError α :=
  if '\x00' ∈ name.toList then .error .nullInName
  else if nameLimit < name.utf8ByteSize then .error (.fault ⟨.nameTooLong, name⟩)
  else target.mapError fun cause => .fault ⟨cause, name⟩

def read (disk : Disk) (name : String) : Except OpenError (List UInt8) :=
  opening name (disk.readTarget name)

def put (disk : Disk) (path : Path) (bytes : List UInt8) : Disk :=
  { disk with files := (path, bytes) :: disk.files.filter fun entry => !decide (entry.1 = path) }

/-- Opens a file to write it: it is made if it is missing, and emptied if it is not. -/
def openEmpty (disk : Disk) (name : String) : Except OpenError (Path × Disk) :=
  (opening name (disk.writeTarget name)).map fun path => (path, disk.put path [])

/-- Fills a file that is open, as far as there is space; without a bound there is always some. -/
def fill (disk : Disk) (path : Path) (bytes : List UInt8) (space : Option Nat) :
    Except WriteFault Unit × Disk :=
  match space with
  | none => (.ok (), disk.put path bytes)
  | some n =>
    (if bytes.length ≤ n then .ok () else .error .noSpace, disk.put path (bytes.take n))

def addDirectory (disk : Disk) (path : Path) : Disk :=
  let opened := (List.range path.length).map fun n => path.take (n + 1)
  { disk with directories := opened ++ disk.directories }

def addFile (disk : Disk) (path : Path) (bytes : List UInt8) : Disk :=
  (disk.addDirectory path.dropLast).put path bytes

def changes (before after : Disk) : List (Path × List UInt8) :=
  after.files.filter fun (path, bytes) => !decide (before.file? path = some bytes)

theorem file?_put (disk : Disk) (path other : Path) (bytes : List UInt8) :
    (disk.put path bytes).file? other =
      if other = path then some bytes else disk.file? other := by
  by_cases h : other = path
  · simp [put, file?, h]
  · have hne : (other == path) = false := by simpa using h
    simp only [put, file?, List.lookup_cons, hne, h, if_false]
    induction disk.files with
    | nil => rfl
    | cons entry rest ih =>
      obtain ⟨p, b⟩ := entry
      by_cases hp : p = path
      · simpa [hp, hne, List.lookup_cons] using ih
      · by_cases ho : other = p
        · simp [hp, ho]
        · have : (other == p) = false := by simpa using ho
          simpa [hp, this, List.lookup_cons] using ih

end Disk

end Cmm

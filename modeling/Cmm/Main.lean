import Cmm.Command

/-!
The program: it gathers what the command may look at, runs it, and writes out what it left behind.
-/

namespace Cmm

def look (place : String) (path : Path) : IO Disk.Target := do
  try
    return .file path (← IO.FS.readBinFile place).toList
  catch e =>
    match e with
    | .inappropriateType _ 21 _ => return .directory path
    | _ => return .missing path

/-- Adds what a file name leads to, and the directories on the way. -/
def gather (disk : Disk) (name : String) : IO Disk := do
  let mut disk := disk
  let mut place := if name.startsWith "/" then "/" else ""
  let mut path : Path := []
  for component in Disk.components name do
    if component = "" || component = "." then continue
    place := place ++ component
    if component = ".." then
      path := path.dropLast
    else
      path := path ++ [component]
      match ← look place path with
      | .directory _ => disk := { disk with directories := path :: disk.directories }
      | .file _ bytes => disk := disk.put path bytes
      | .missing _ => pure ()
    place := place ++ "/"
  return disk

def writeOut (before after : Disk) (name : String) : IO Unit := do
  if let .ok path := after.writeTarget name then
    if let some bytes := after.file? path then
      if before.file? path ≠ some bytes then
        IO.FS.writeBinFile name ⟨bytes.toArray⟩

end Cmm

open Cmm in
def main (arguments : List String) : IO UInt32 := do
  let environment ← IO.getEnv "PYCMM_TAB_WIDTH"
  let names := match Options.read arguments with
    | .ok options => options.source :: options.output.toList
    | .error _ => []
  let disk ← names.foldlM gather .empty
  let outcome := Command.run arguments environment disk
  names.forM (writeOut disk outcome.disk)
  (← IO.getStderr).putStr outcome.stderr
  (← IO.getStdout).putStr outcome.stdout
  match outcome.ending with
  | .exit status => return UInt32.ofNat status
  | .stopped e =>
    IO.eprintln e.message
    return 1

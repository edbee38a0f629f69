import Rendition.Files.Disk

/-!
# Rendition.Files.Local

The files below a directory of a disk. A file is written beside its place under a name of its own
first, and then moved into place, so a reader finds the old content or the new one and never a part
of it. That name holds the number of the process and the number of the attempt, so no two attempts
share it.

A path that starts with a slash leads out of the directory.
-/

namespace Rendition

/-- The files below a directory of a disk. -/
structure LocalFiles where
  disk : Disk
  /-- The path of the directory. -/
  root : String
  /-- The number of the process that writes. -/
  process : Nat
  /-- The number of attempts to write so far. -/
  attempts : Nat

namespace LocalFiles

/-- The files below a directory, before the first attempt to write. -/
def below (disk : Disk) (root : String) (process : Nat) : LocalFiles := ⟨disk, root, process, 0⟩

/-- The name under which a file is written first. -/
def temporaryName (name : String) (process attempt : Nat) : String :=
  "." ++ name ++ "." ++ toString process ++ "." ++ toString attempt ++ ".tmp"

/-- The error that reports a refused call on a path. -/
def refused (call path : String) : Error :=
  .other (call ++ " '" ++ path ++ "'")

/-- Changes the disk, unless the call is refused. -/
def changing (call path : String) (change : Disk → Except OsError Disk) :
    FilesM LocalFiles Unit := do
  match change (← get).disk with
  | .ok disk => modify fun s => { s with disk }
  | .error _ => throw (refused call path)

/-- What is known of an entry. -/
def stat (path : String) : StateM LocalFiles (Option FileStat) := do
  let s ← get
  pure (s.disk.stat (underRoot s.root path)).toOption

/-- The content of a file. -/
def read (path : String) : FilesM LocalFiles Content := do
  let s ← get
  let path := underRoot s.root path
  match s.disk.read path with
  | .ok content => pure content
  | .error _ => throw (refused "read" path)

/-- Moves a file into place; if that is refused, the file is removed. -/
def moveInto (temporary path : String) : FilesM LocalFiles Unit := do
  try changing "rename into" path (·.rename temporary path)
  catch refusal =>
    modify fun s => { s with disk := (s.disk.remove temporary).toOption.getD s.disk }
    throw refusal

/-- Gives a file a content. -/
def write (path : String) (content : Content) : FilesM LocalFiles Unit := do
  let s ← get
  match splitPath? (underRoot s.root path) with
  | none => throw (.notFound ("'" ++ path ++ "' has no file name"))
  | some (dir, name) =>
    let temporary := dir ++ "/" ++ temporaryName name s.process s.attempts
    -- The attempt counts from here on, whether it succeeds or not.
    modify fun s => { s with attempts := s.attempts + 1 }
    changing "write" temporary (·.write temporary content)
    moveInto temporary (underRoot s.root path)

/-- Removes a file. -/
def remove (path : String) : FilesM LocalFiles Bool := do
  let s ← get
  let path := underRoot s.root path
  match s.disk.remove path with
  | .ok disk =>
    set { s with disk }
    pure true
  | .error .noEntry => pure false
  | .error _ => throw (refused "remove" path)

/-- The files as a file system. -/
def fileSystem : FileSystem LocalFiles where
  stat := stat
  read := read
  write := write
  remove := remove

end LocalFiles

end Rendition

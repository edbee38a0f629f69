import Rendition.Files.Memory

/-!
# Rendition.Files.Unreliable

Files in memory that can go wrong, to see how requests fare when they do. Chosen operations fail,
and entries can be put beside the files that are there for a look only: one is a directory, the
other looks like an empty file and has no content.
-/

namespace Rendition

/-- An operation that changes or reads a file. -/
inductive FileOperation where
  | read
  | write
  | remove
  deriving DecidableEq

/-- The name of an operation. -/
def FileOperation.name : FileOperation → String
  | read => "read"
  | write => "write"
  | remove => "remove"

/-- Files in memory, the entries put beside them, and the operations that fail. -/
structure UnreliableFiles where
  memory : MemoryFiles
  marks : Catalog FileStat
  failing : List FileOperation

namespace UnreliableFiles

/-- Files that do not go wrong yet. -/
def ofMemory (memory : MemoryFiles) : UnreliableFiles := ⟨memory, .empty, []⟩

/-- Puts an entry beside the files. -/
def mark (path : String) (stat : FileStat) (u : UnreliableFiles) : UnreliableFiles :=
  { u with marks := u.marks.insert path stat }

/-- The error of a failing operation. -/
def failure (operation : FileOperation) : Error :=
  .other ("scripted " ++ operation.name ++ " failure")

/-- Uses the files in memory, unless the operation fails. -/
def attempt {α : Type} (operation : FileOperation) (m : FilesM MemoryFiles α) :
    FilesM UnreliableFiles α := do
  let u ← get
  if operation ∈ u.failing then throw (failure operation)
  else
    let (outcome, memory) := m.run u.memory
    set { u with memory }
    match outcome with
    | .ok a => pure a
    | .error e => throw e

/-- What is known of an entry; one that was put beside the files hides a file. -/
def stat (path : String) : StateM UnreliableFiles (Option FileStat) := do
  let u ← get
  match u.marks.get? path with
  | some stat => pure (some stat)
  | none =>
    let (answer, memory) := (MemoryFiles.stat path).run u.memory
    set { u with memory }
    pure answer

/-- Gives a file a content; an entry that was put beside the files takes none. -/
def write (path : String) (content : Content) : FilesM UnreliableFiles Unit := do
  if .write ∉ (← get).failing ∧ (← get).marks.contains path then
    throw (.other ("'" ++ path ++ "' is not writable"))
  else attempt .write (MemoryFiles.write path content)

/-- The files as a file system. -/
def fileSystem : FileSystem UnreliableFiles where
  stat := stat
  read path := attempt .read (MemoryFiles.read path)
  write := write
  remove path := attempt .remove (MemoryFiles.remove path)

end UnreliableFiles

end Rendition

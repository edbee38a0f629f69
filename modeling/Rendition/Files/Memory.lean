import Rendition.Catalog
import Rendition.Files.Basic

/-!
# Rendition.Files.Memory

Files in memory, under their whole paths: there are no directories, and any text is a path. Writing
stamps a file with the time that the state holds.
-/

namespace Rendition

open Time

/-- Files in memory, and the time of writes. -/
structure MemoryFiles where
  files : Catalog StoredFile
  now : Timestamp

namespace MemoryFiles

/-- No files. -/
def startingAt (now : Timestamp) : MemoryFiles := ⟨.empty, now⟩

/-- Puts a file in place, with its times. -/
def insert (path : String) (file : StoredFile) (m : MemoryFiles) : MemoryFiles :=
  { m with files := m.files.insert path file }

/-- Sets both times of a file that is there. -/
def touch (path : String) (at' : Timestamp) (m : MemoryFiles) : MemoryFiles :=
  { m with files := m.files.modify path fun f => { f with modified := at', changed := at' } }

/-- Is there a file? -/
def contains (path : String) (m : MemoryFiles) : Bool :=
  m.files.contains path

/-- The paths of the files, in ascending order. -/
def paths (m : MemoryFiles) : List String :=
  m.files.names

/-- What is known of a file. -/
def stat (path : String) : StateM MemoryFiles (Option FileStat) := do
  pure (((← get).files.get? path).map StoredFile.stat)

/-- The content of a file. -/
def read (path : String) : FilesM MemoryFiles Content := do
  match (← get).files.get? path with
  | some file => pure file.content
  | none => throw (.notFound ("'" ++ path ++ "' does not exist"))

/-- Gives a file a content, and both its times the time of writes. -/
def write (path : String) (content : Content) : FilesM MemoryFiles Unit :=
  modify fun m => m.insert path ⟨content, m.now, m.now⟩

/-- Removes a file. -/
def remove (path : String) : FilesM MemoryFiles Bool := do
  let m ← get
  set { m with files := m.files.erase path }
  pure (m.contains path)

/-- The files as a file system. -/
def fileSystem : FileSystem MemoryFiles where
  stat := stat
  read := read
  write := write
  remove := remove

end MemoryFiles

end Rendition

import Rendition.Resolution

/-!
# Rendition.Staleness

Whether a file on disk is older than what it was made from. A file is stale if any file of its
ancestry was touched after its own content was written. A stale file goes together with every file
of its ancestry except the last: that is the true source, which stays.
-/

namespace Rendition

/-- What a look at a file and its ancestry shows. -/
inductive Staleness where
  /-- No file of the ancestry is newer, or there is none, or no such file. -/
  | fresh
  /-- Some file of the ancestry is newer; the files that have to go, the file itself first. -/
  | stale (doomed : List String)
  deriving DecidableEq

/-- The verdict on a file with its ancestry. -/
def verdict (path : String) (stat : FileStat) (levels : List FoundFile) : Staleness :=
  if levels.any fun level => stat.modified < level.stat.newest then
    .stale (path :: levels.dropLast.map (·.path))
  else .fresh

/-- Looks at a file and its ancestry. -/
def staleness {m : Type → Type} [Monad m] (stat : String → m (Option FileStat))
    (fallbacks : Fallbacks) (path : RequestPath) : m Staleness := do
  match ← regularFile stat path.text with
  | none => pure .fresh
  | some file => pure (verdict path.text file.stat (← ancestry stat fallbacks path))

/-- Removes files in order, up to the first that cannot be removed. -/
def removeAll {φ : Type} (files : FileSystem φ) : List String → FilesM φ Unit
  | [] => pure ()
  | path :: rest => do
    let _ ← files.remove path
    removeAll files rest

/-- Removes a file with its ancestry if it is stale; the answer is whether it was. -/
def sweep {φ : Type} (files : FileSystem φ) (fallbacks : Fallbacks) (path : RequestPath) :
    FilesM φ Bool := do
  match ← (staleness files.stat fallbacks path : StateM φ Staleness) with
  | .fresh => pure false
  | .stale doomed =>
    removeAll files doomed
    pure true

end Rendition

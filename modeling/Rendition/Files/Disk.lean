import Rendition.Files.Path
import Rendition.Files.Tree

/-!
# Rendition.Files.Disk

A disk: a tree with a clock, and the calls that programs make on it. Each change is stamped with the
time of the clock, which then moves on, so a later change has a later time. A refused call changes
nothing, and neither does a call that only looks.

Among the files are some in which the system shows itself. They are found like any other, but their
directory cannot be changed: no call makes, moves or removes anything there.
-/

namespace Rendition

open Text Time

/-- A tree and the time of the next change. -/
structure Disk where
  tree : Tree
  now : Timestamp

/-- A millisecond. -/
def Time.Duration.millisecond : Duration := ⟨1000000, by decide⟩

/-- What is known of an entry that is no link. -/
def Entry.stat? : Entry → Option FileStat
  | .directory made => some { modified := made, changed := made, size? := some 0, isFile := false }
  | .file stored => some stored.stat
  | .link _ => none

namespace Disk

/-! ### What the system shows of itself -/

/-- The place of the directory in which the system shows itself. -/
def systemPlace : String := "/proc"

/-- Does a place lie in that directory? -/
def ofSystem (place : String) : Bool :=
  opensWith (systemPlace ++ "/") place

/-- Refuses a change of a place of the system. -/
def permit (place : String) : Except OsError Unit :=
  if ofSystem place then throw (.other "Operation not permitted" 1) else pure ()

/-- A disk with nothing on it but the system's own directory. The file there that tells the version
of the system is as good as empty: its content is made up when it is read. -/
def bare (now : Timestamp) : Disk where
  tree := { Tree.bare with
    entries := (Catalog.empty.insert systemPlace (.directory now)).insert
      (Tree.childOf systemPlace "version") (.file ⟨.bytes .empty, now, now⟩) }
  now := now

/-! ### Looking -/

/-- What is known of the entry that a path leads to. -/
def stat (d : Disk) (path : String) : Except OsError FileStat := do
  match ← d.tree.lookup true path with
  | .vacant _ => throw .noEntry
  | .found _ entry =>
    match entry.stat? with
    | some stat => pure stat
    | none => throw .tooManyLinks

/-- The content of a file; `none` for a directory, which can be opened but not be read. -/
def opened (d : Disk) (path : String) : Except OsError (Option Content) := do
  match ← d.tree.lookup true path with
  | .found _ (.file file) => pure (some file.content)
  | .found _ (.directory _) => pure none
  | .found _ (.link _) => throw .tooManyLinks
  | .vacant _ => throw .noEntry

/-- The content of a file. -/
def read (d : Disk) (path : String) : Except OsError Content := do
  match ← d.opened path with
  | some content => pure content
  | none => throw .isDirectory

/-- The path of a place. -/
def pathAt (place : String) : String :=
  if place = "" then "/" else place

/-- The path without links and dots that leads where a path leads. -/
def realPath (d : Disk) (path : String) : Except OsError String := do
  match ← d.tree.lookup true path with
  | .found place _ => pure (pathAt place)
  | .vacant _ => throw .noEntry

/-- The places below a place that hold no directory, without the place itself, in ascending
order. -/
def filesBelow (d : Disk) (place : String) : List String :=
  d.tree.entries.names.filterMap fun name =>
    if (d.tree.entries.get? name).any (·.isDirectory) then none
    else after? (place ++ "/") name

/-- The path of an entry and those of all directories below it, in ascending order. Paths go on from
the one that is given. -/
def directoriesFrom (d : Disk) (path : String) : Except OsError (List String) := do
  match ← d.tree.lookup true path with
  | .vacant _ => throw .noEntry
  | .found place _ =>
    let below := d.tree.entries.names.filterMap fun name =>
      if (d.tree.entries.get? name).any (·.isDirectory) then after? (place ++ "/") name else none
    pure (path :: below.map (path ++ "/" ++ ·))

/-! ### Changing -/

/-- The disk after a change: the tree is a new one and the clock has moved on. -/
def changed (d : Disk) (entries : Catalog Entry) : Disk where
  tree := { d.tree with entries }
  now := (d.now.add? .millisecond).getD d.now

/-- The disk with an entry at a place. -/
def put (d : Disk) (place : String) (entry : Entry) : Disk :=
  d.changed (d.tree.entries.insert place entry)

/-- Gives a file a content, and makes it if it is not there. -/
def write (d : Disk) (path : String) (content : Content) : Except OsError Disk := do
  match ← d.tree.lookup true path with
  | .vacant place | .found place (.file _) =>
    permit place
    pure (d.put place (.file ⟨content, d.now, d.now⟩))
  | .found _ (.directory _) => throw .isDirectory
  | .found _ (.link _) => throw .tooManyLinks

/-- Opens a file to append to it, and makes it if it is not there; the answer is its place. -/
def openToAppend (d : Disk) (path : String) : Except OsError (String × Disk) := do
  match ← d.tree.lookup true path with
  | .vacant place =>
    permit place
    pure (place, d.put place (.file ⟨.bytes .empty, d.now, d.now⟩))
  | .found place (.file _) =>
    permit place
    pure (place, d)
  | .found _ (.directory _) => throw .isDirectory
  | .found _ (.link _) => throw .tooManyLinks

/-- Appends a text to the bytes of the file at a place. -/
def append (d : Disk) (place text : String) : Disk :=
  match d.tree.entry? place with
  | some (.file ⟨.bytes b, _, _⟩) =>
    d.put place (.file ⟨.bytes (b ++ text.toUTF8), d.now, d.now⟩)
  | _ => d

/-- The entry as it lies elsewhere from a time on. -/
def movedEntry (now : Timestamp) : Entry → Entry
  | .file file => .file { file with changed := now }
  | entry => entry

/-- Moves a file or a link, onto another one if need be. Links are not followed. -/
def rename (d : Disk) (source target : String) : Except OsError Disk := do
  let (.found old entry) ← d.tree.lookup false source | throw .noEntry
  if entry.isDirectory then throw .isDirectory
  match ← d.tree.lookup false target with
  | .found _ (.directory _) => throw .isDirectory
  | .found place _ | .vacant place =>
    permit old
    permit place
    pure (d.changed ((d.tree.entries.erase old).insert place (movedEntry d.now entry)))

/-- Removes a file or a link. A slash behind the name of a link does not lead over it. -/
def remove (d : Disk) (path : String) : Except OsError Disk := do
  match ← d.tree.lookup false (withoutEndSlashes path) with
  | .vacant _ => throw .noEntry
  | .found _ (.directory _) => throw .isDirectory
  | .found place _ =>
    if endsInSlash path then throw .notDirectory
    permit place
    pure (d.changed (d.tree.entries.erase place))

/-- Makes a directory where there is nothing yet. -/
def ensureDirectory (d : Disk) (path : String) : Except OsError Disk := do
  match ← d.tree.lookup true path with
  | .vacant place =>
    permit place
    pure (d.put place (.directory d.now))
  | .found _ (.directory _) => pure d
  | .found _ _ => throw .notDirectory

/-- Makes a link. -/
def link (d : Disk) (path target : String) : Except OsError Disk := do
  match ← d.tree.lookup false path with
  | .vacant place =>
    permit place
    pure (d.put place (.link target))
  | .found _ _ => throw (.other "File exists" 17)

/-- Sets the time at which the content of a file was last changed. -/
def setModified (d : Disk) (path : String) (modified : Timestamp) : Except OsError Disk := do
  match ← d.tree.lookup true path with
  | .found place (.file file) =>
    permit place
    pure (d.put place (.file { file with modified, changed := d.now }))
  | .found _ (.directory _) => throw .isDirectory
  | .found _ (.link _) | .vacant _ => throw .noEntry

/-- Makes a directory the one from which relative paths start. -/
def enter (d : Disk) (path : String) : Except OsError Disk := do
  match ← d.tree.lookup true path with
  | .found place (.directory _) => pure { d with tree := { d.tree with current := place } }
  | .found _ _ => throw .notDirectory
  | .vacant _ => throw .noEntry

end Disk

end Rendition

import Rendition.Error
import Rendition.Files.Local
import Rendition.Log
import Rendition.Net.Address
import Rendition.OsError

/-!
# Rendition.Machine

The machine that the server starts on, as a record of the calls that a start makes. `Host` is a
machine that is given by its disk, and by what it says to a wish to listen.
-/

namespace Rendition

open Net

/-- The calls of a start. -/
structure Machine (m : Type → Type) where
  /-- Opens and reads a file; `none` if it can be opened but not be read. -/
  openFile : (path : String) → m (Except OsError (Option ByteArray))
  /-- Makes a file the log, behind what it holds already. -/
  openLog : (path : String) → m (Except OsError Unit)
  /-- Adds an event to the log, which is the terminal as long as no file was made the log. -/
  log : (event : LogEvent) → m Unit
  /-- The path without links and dots that leads where a path leads. -/
  realPath : (path : String) → m (Except OsError String)
  /-- Makes a directory the one from which relative paths start. -/
  enter : (path : String) → m (Except OsError Unit)
  /-- The content of a file below a directory. -/
  readBelow : (root path : String) → ExceptT Error m Content
  /-- Reports the changes of a directory and of those below it from now on; the answer is the paths
  of all these. -/
  watch : (path : String) → m (Except OsError (List String))
  /-- Listens at an address. -/
  listen : (address : Address) → (port : UInt16) → m (Except OsError Unit)

/-- A machine with a disk. -/
structure Host where
  disk : Disk
  /-- The place of the log, unless that is the terminal. -/
  logPlace : Option String

namespace Host

/-- A machine whose log is the terminal. -/
def ofDisk (disk : Disk) : Host := ⟨disk, none⟩

/-- The bytes of a content; there are none for a picture, whose bytes are not known. -/
def bytesOf : Content → ByteArray
  | .bytes b => b
  | .picture _ => .empty

/-- Opens and reads a file. -/
def openFile (path : String) : StateM Host (Except OsError (Option ByteArray)) := do
  pure (((← get).disk.opened path).map (·.map bytesOf))

/-- Makes a file the log. -/
def openLog (path : String) : StateM Host (Except OsError Unit) := do
  match (← get).disk.openToAppend path with
  | .ok (place, disk) =>
    set (⟨disk, some place⟩ : Host)
    pure (.ok ())
  | .error e => pure (.error e)

/-- Adds an event to the log, without a time; what is printed on the terminal is lost. -/
def log (event : LogEvent) : StateM Host Unit :=
  modify fun h =>
    match h.logPlace with
    | some place => { h with disk := h.disk.append place (event.line ++ "\n") }
    | none => h

/-- Makes a directory the one from which relative paths start. -/
def enter (path : String) : StateM Host (Except OsError Unit) := do
  match (← get).disk.enter path with
  | .ok disk =>
    modify fun h => { h with disk }
    pure (.ok ())
  | .error e => pure (.error e)

/-- The content of a file below a directory. -/
def readBelow (root path : String) : ExceptT Error (StateM Host) Content := do
  match ((LocalFiles.read path).run (.below (← get).disk root 0)).1 with
  | .ok content => pure content
  | .error e => throw e

/-- The machine, which answers a wish to listen with `listen`. -/
def machine (listen : Address → UInt16 → Except OsError Unit) : Machine (StateM Host) where
  openFile := openFile
  openLog := openLog
  log := log
  realPath path := do pure ((← get).disk.realPath path)
  enter := enter
  readBelow := readBelow
  watch path := do pure ((← get).disk.directoriesFrom path)
  listen address port := pure (listen address port)

end Host

end Rendition

import Rendition.Catalog
import Rendition.Files.Basic
import Rendition.OsError
import Rendition.Text.Pieces

/-!
# Rendition.Files.Tree

A tree of directories, files and symbolic links, and where a path leads in it. Each entry lies at a
place: the names on the way to it from the top, each behind a slash, so the place of the top is the
empty text. Many paths lead to one place, as a path may hold dots, links and repeated slashes.

`walk` follows a path one name at a time. A link is replaced by its target, and the number of links
on the way is bounded, so that a walk ends even where links lead in circles.
-/

namespace Rendition

open Text Time

/-! ### Trees -/

/-- What lies at a place. -/
inductive Entry where
  /-- A directory, with the time at which it was made. -/
  | directory (made : Timestamp)
  | file (file : StoredFile)
  /-- A link to the path `target`. -/
  | link (target : String)

/-- Is it a directory? -/
def Entry.isDirectory : Entry → Bool
  | directory _ => true
  | file _ | link _ => false

/-- The entries below the top, by place, and the place from which relative paths start. -/
structure Tree where
  entries : Catalog Entry
  current : String

namespace Tree

/-- A tree with nothing below the top. -/
def bare : Tree := ⟨.empty, ""⟩

/-- What lies at a place. The top is always a directory. -/
def entry? (t : Tree) (place : String) : Option Entry :=
  if place = "" then some (.directory .epoch) else t.entries.get? place

/-- The place of a name in a directory. -/
def childOf (place name : String) : String :=
  place ++ "/" ++ name

/-- The place of the directory that a place lies in; the top lies in itself. -/
def parentOf (place : String) : String :=
  ((cutLast '/' place).map (·.1)).getD ""

/-- A name lies in the directory in which its place was built. -/
theorem parentOf_childOf {place name : String} (h : '/' ∉ name.toList) :
    parentOf (childOf place name) = place := by
  have hcut : cutLastChars '/' (place.toList ++ '/' :: name.toList)
      = some (place.toList, name.toList) := cutLastChars_append h _
  simp [parentOf, childOf, cutLast, hcut]

/-! ### Walks -/

/-- Where a path leads. -/
inductive Landing where
  /-- To an entry. -/
  | found (place : String) (entry : Entry)
  /-- To a directory that has no entry of the last name, which would lie at this place. -/
  | vacant (place : String)

/-- The number of links that a walk follows at most. -/
def linkLimit : Nat := 40

/-- The bytes of a name are at most so many. -/
def nameLimit : Nat := 255

/-- The bytes of a path are fewer than this. -/
def pathLimit : Nat := 4096

/-- Where a walk over a link goes on: at the top, if its target starts with a slash. -/
def startOf (target place : String) : String :=
  if opensWith "/" target then "" else place

/-- Follows the names `todo` from a place, over `links` links at most. A link under the last name is
followed only if `followLast` is set. An empty name or a dot stays where it is, which has to be a
directory. -/
def walk (t : Tree) (followLast : Bool) (links : Nat) (place : String) (todo : List String) :
    Except OsError Landing :=
  match todo with
  | [] =>
    match t.entry? place with
    | none => .error .noEntry
    | some entry => .ok (.found place entry)
  | name :: rest =>
    -- Even an empty name, such as the one behind a slash at the end, needs a directory.
    if !(t.entry? place).any (·.isDirectory) then .error .notDirectory
    else if name = "" ∨ name = "." then walk t followLast links place rest
    else if name = ".." then walk t followLast links (parentOf place) rest
    else if nameLimit < name.utf8ByteSize then .error .nameTooLong
    else
      let child := childOf place name
      match t.entries.get? child with
      | none => if rest = [] then .ok (.vacant child) else .error .noEntry
      | some (.link target) =>
        if rest = [] ∧ !followLast then .ok (.found child (.link target))
        else
          -- The names of the target take the place of the link's own name.
          match links with
          | 0 => .error .tooManyLinks
          | more + 1 => walk t followLast more (startOf target place) (pieces '/' target ++ rest)
      | some (.file _) | some (.directory _) => walk t followLast links child rest
termination_by (links, todo.length)

/-- Where a path leads. -/
def lookup (t : Tree) (followLast : Bool) (path : String) : Except OsError Landing :=
  if '\x00' ∈ path.toList then .error .nulInPath
  else if path = "" then .error .noEntry
  else if pathLimit ≤ path.utf8ByteSize then .error .nameTooLong
  else t.walk followLast linkLimit (startOf path t.current) (pieces '/' path)

end Tree

end Rendition

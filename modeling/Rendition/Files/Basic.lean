import Rendition.Content
import Rendition.Error
import Rendition.Time.Timestamp

/-!
# Rendition.Files.Basic

What the library asks of the files below the image root. Paths are texts with `/` between their
segments, relative to the root.
-/

namespace Rendition

open Time

/-- What is known of an entry without reading it. -/
structure FileStat where
  /-- When its content was last changed. -/
  modified : Timestamp
  /-- When it was last changed in any way. -/
  changed : Timestamp
  /-- Its size in bytes, if known. -/
  size? : Option Nat
  /-- Is it a file, and not a directory or a device? -/
  isFile : Bool
  deriving DecidableEq

/-- The later of its two times. -/
def FileStat.newest (s : FileStat) : Timestamp :=
  Timestamp.later s.modified s.changed

/-- A file with its times. -/
structure StoredFile where
  content : Content
  modified : Timestamp
  changed : Timestamp

/-- What is known of a file. -/
def StoredFile.stat (f : StoredFile) : FileStat where
  modified := f.modified
  changed := f.changed
  size? := f.content.size?
  isFile := true

/-- The calls on files of the state `φ` that can fail. -/
abbrev FilesM (φ : Type) := ExceptT Error (StateM φ)

/-- A tree of files with the state `φ`. -/
structure FileSystem (φ : Type) where
  /-- What is known of an entry; `none` if it is not there or cannot be looked at. -/
  stat : (path : String) → StateM φ (Option FileStat)
  /-- The content of a file. -/
  read : (path : String) → FilesM φ Content
  /-- Gives a file a content, at once for every reader. -/
  write : (path : String) → (content : Content) → FilesM φ Unit
  /-- Removes a file; the answer is whether it was there. -/
  remove : (path : String) → FilesM φ Bool

end Rendition

import Rendition.Error
import Rendition.Text.Pieces

/-!
# Rendition.RequestPath

The paths that requests name, relative to the image root. A `RequestPath` is a non-empty list of
segments, none of which can lead out of the root: no segment is empty, `.` or `..`, and none holds
a separator or a NUL. Because the type carries these facts, a path that was parsed is safe to hand
to any file system.

`parse` turns the text of a request into a path, and `PathFault` lists the ways in which it refuses.
A backslash counts as a separator, one leading separator is dropped, and empty and `.` segments
vanish; a second leading separator and a `..` segment are refused.
-/

namespace Rendition

open Text

/-! ### Segments -/

/-- A name that can stand between two separators: it names an entry of a directory, and not the
directory itself or the one above. -/
structure IsSegment (s : String) : Prop where
  ne_empty : s ≠ ""
  ne_dot : s ≠ "."
  ne_dots : s ≠ ".."
  no_slash : '/' ∉ s.toList
  no_backslash : '\\' ∉ s.toList
  no_nul : '\x00' ∉ s.toList

/-- A path below the image root, by its segments. -/
structure RequestPath where
  segments : List String
  ne_nil : segments ≠ []
  isSegment : ∀ s ∈ segments, IsSegment s

namespace RequestPath

instance : DecidableEq RequestPath := fun p q =>
  decidable_of_iff (p.segments = q.segments) <| by
    cases p; cases q; simp

@[ext] theorem ext {p q : RequestPath} (h : p.segments = q.segments) : p = q := by
  cases p; cases q; simp_all

/-- The segments with one `/` between two neighbours. -/
def text (p : RequestPath) : String :=
  joined '/' p.segments

/-- The directory of the path: every segment but the last, each with the `/` that follows it. It is
empty at the top. -/
def dir (p : RequestPath) : String :=
  String.join (p.segments.dropLast.map (· ++ "/"))

/-- The last segment. -/
def fileName (p : RequestPath) : String :=
  p.segments.getLast p.ne_nil

theorem isSegment_fileName (p : RequestPath) : IsSegment p.fileName :=
  p.isSegment _ (List.getLast_mem p.ne_nil)

end RequestPath

/-! ### Stem and extension -/

/-- A file name cut at its last dot into stem and extension. A dot that is the first or the last
character does not count, so both parts have a character; `.hidden` and `name.` have no
extension. -/
def splitExtension (name : String) : Option (String × String) :=
  (cutLast '.' name).filter fun (stem, ext) => stem ≠ "" && ext ≠ ""

/-- The extension of the last segment, if it has one. -/
def RequestPath.extension (p : RequestPath) : Option String :=
  (splitExtension p.fileName).map (·.2)

/-! ### Reading a path -/

/-- Why a text is no request path. -/
inductive PathFault where
  /-- It holds a NUL. -/
  | nul
  /-- It opens with two separators. -/
  | absolute (raw : String)
  /-- One of its segments is `..`. -/
  | parent (raw : String)
  /-- No segment is left. -/
  | empty
  deriving DecidableEq, Repr

namespace PathFault

/-- The error a request meets that names no path: nothing is there for an empty path, and each
other fault is the request's own. -/
def toError : PathFault → Error
  | nul => .badPath "request path contains a NUL byte"
  | absolute raw => .badPath ("absolute request path '" ++ raw ++ "'")
  | parent raw => .badPath ("request path '" ++ raw ++ "' contains '..'")
  | empty => .notFound "empty request path"

end PathFault

/-- `s` with every backslash turned into a slash. -/
def turnSlashes (s : String) : String :=
  String.ofList (s.toList.map fun c => if c = '\\' then '/' else c)

@[simp] theorem toList_turnSlashes (s : String) :
    (turnSlashes s).toList = s.toList.map fun c => if c = '\\' then '/' else c := by
  simp [turnSlashes]

/-- Does the text open with two slashes? -/
def opensTwice (s : String) : Bool :=
  match s.toList with
  | '/' :: '/' :: _ => true
  | _ => false

/-- Does a piece between separators name something? -/
def isNamed (s : String) : Bool :=
  s ≠ "" && s ≠ "."

/-- The pieces of a raw path between its separators, empty ones and dots included. -/
def rawSegments (raw : String) : List String :=
  pieces '/' (turnSlashes raw)

/-- What `parse` keeps of a raw path without NUL and `..` are segments. -/
theorem isSegment_of_mem_rawSegments {raw s : String} (hnul : '\x00' ∉ raw.toList)
    (hparent : ".." ∉ rawSegments raw) (hs : s ∈ (rawSegments raw).filter isNamed) :
    IsSegment s := by
  obtain ⟨hmem, hnamed⟩ := List.mem_filter.1 hs
  have hchar : ∀ c ∈ s.toList, c ∈ (turnSlashes raw).toList ∧ c ≠ '/' := fun c hc =>
    mem_of_mem_pieces hmem hc
  simp only [isNamed, ne_eq, decide_not, Bool.and_eq_true, Bool.not_eq_true',
    decide_eq_false_iff_not] at hnamed
  refine ⟨hnamed.1, hnamed.2, fun h => hparent (h ▸ hmem), fun h => (hchar _ h).2 rfl, ?_, ?_⟩
  · intro h
    obtain ⟨c, -, hc⟩ := List.mem_map.1 (toList_turnSlashes raw ▸ (hchar _ h).1)
    split at hc
    · exact absurd hc (by decide)
    · next hne => exact hne hc
  · intro h
    obtain ⟨c, hmem, hc⟩ := List.mem_map.1 (toList_turnSlashes raw ▸ (hchar _ h).1)
    split at hc
    · exact absurd hc (by decide)
    · exact hnul (hc ▸ hmem)

/-- Reads the path that a request names. -/
def RequestPath.parse (raw : String) : Except PathFault RequestPath :=
  if hnul : '\x00' ∈ raw.toList then .error .nul
  else if opensTwice (turnSlashes raw) then .error (.absolute raw)
  else if hparent : ".." ∈ rawSegments raw then .error (.parent raw)
  else if hne : (rawSegments raw).filter isNamed = [] then .error .empty
  else .ok
    { segments := (rawSegments raw).filter isNamed
      ne_nil := hne
      isSegment := fun _ hs => isSegment_of_mem_rawSegments hnul hparent hs }

/-- Reads the path that a request names, or reports why it names none. -/
def RequestPath.ofRequest (raw : String) : Except Error RequestPath :=
  (RequestPath.parse raw).mapError PathFault.toError

end Rendition

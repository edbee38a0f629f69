import Rendition.Text.Case

/-!
# Rendition.Fallbacks

Which extensions a source may have. A request names one extension, which is looked for first; a
table gives further ones for it, in the order in which they are looked for. Extensions are compared
without regard to case throughout, and none is looked for twice.
-/

namespace Rendition

open Text

/-- Further extensions by the requested one, which is in small letters. The first entry of an
extension counts. -/
structure Fallbacks where
  lists : List (String × List String)
  deriving DecidableEq, Repr

namespace Fallbacks

/-- No further extension for any. -/
def none : Fallbacks := ⟨[]⟩

/-- The table used when nothing else is asked for. -/
def builtIn : Fallbacks where
  lists :=
    [("jpg", ["png", "gif", "bmp", "jpeg", "tga", "tiff"]),
      ("jpeg", ["jpg", "png", "gif", "bmp", "tga", "tiff"]),
      ("png", ["jpg", "jpeg", "gif", "bmp", "tga", "tiff"]),
      ("gif", ["png", "jpg", "jpeg", "bmp", "tga", "tiff"]),
      ("bmp", ["png", "jpg", "jpeg", "gif", "tga", "tiff"]),
      ("webp", ["png", "jpg", "jpeg", "gif", "bmp", "tiff"]),
      ("tiff", ["tif", "png", "jpg", "jpeg", "bmp"]),
      ("tif", ["tiff", "png", "jpg", "jpeg", "bmp"]),
      ("tga", ["png", "jpg", "jpeg", "bmp"])]

/-- `ext` without the dots in front of it. -/
def undotted (ext : String) : String :=
  String.ofList (ext.toList.dropWhile (· = '.'))

/-- The table with the list of one extension replaced. -/
def replace (t : Fallbacks) (ext : String) (alternates : List String) : Fallbacks :=
  ⟨(lower ext, alternates.map undotted) :: t.lists⟩

/-- The built-in table with the lists of some extensions replaced, one after the other: of two keys
that differ in case only the later one counts. -/
def ofOverrides (overrides : List (String × List String)) : Fallbacks :=
  overrides.foldl (fun t (ext, alternates) => t.replace ext alternates) builtIn

/-- The further extensions for one, as listed. -/
def alternates (t : Fallbacks) (ext : String) : List String :=
  (t.lists.lookup (lower ext)).getD []

/-- `exts` without those that equal, up to case, one that was seen or an earlier one. -/
def unseen (seen : List String) : List String → List String
  | [] => []
  | ext :: rest =>
    if seen.any (sameLetters · ext) then unseen seen rest
    else ext :: unseen (ext :: seen) rest

/-- The extensions to look for when `ext` is requested, in order. -/
def candidates (t : Fallbacks) (ext : String) : List String :=
  ext :: unseen [ext] (t.alternates ext)

@[simp] theorem alternates_replace_self (t : Fallbacks) (ext : String) (l : List String) :
    (t.replace ext l).alternates ext = l.map undotted := by
  simp [replace, alternates]

theorem alternates_replace_of_ne {t : Fallbacks} {ext other : String} {l : List String}
    (h : lower other ≠ lower ext) : (t.replace ext l).alternates other = t.alternates other := by
  have : (lower other == lower ext) = false := by simpa using h
  simp [replace, alternates, List.lookup_cons, this]

end Fallbacks

end Rendition

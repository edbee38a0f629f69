import Rendition.Text.Pieces

/-!
# Rendition.Files.Path

Paths as texts. Names stand between slashes, and a path that starts with a slash starts at the top.
Repeated slashes, slashes at the end and dots between names lead nowhere, so two texts may be one
path; `components` is what they have in common.
-/

namespace Rendition

open Text

/-- Does a piece between two slashes name nothing? -/
def isIdle (piece : String) : Bool :=
  piece = "" || piece = "."

/-- The pieces of a path that say where it leads: the start, which is `/` at the top, `.` if the
path says so, and left out otherwise, and then the names. -/
def components (path : String) : List String :=
  let names := (pieces '/' path).filter (!isIdle ·)
  match pieces '/' path with
  | "" :: _ :: _ => "/" :: names
  | "." :: _ => "." :: names
  | _ => names

/-- Are two texts the same path? -/
def samePath (a b : String) : Bool :=
  components a = components b

example : samePath "././" "./" ∧ samePath "a//b/." "a/b" := by decide
example : ¬ samePath "/" "./" ∧ ¬ samePath "./a" "a" ∧ ¬ samePath "" "./" := by decide

/-- Does a path end in a slash? What it leads to then has to be a directory. -/
def endsInSlash (path : String) : Bool :=
  path.toList.getLast? = some '/'

/-- A path without the slashes at its end. That of the top keeps one. -/
def withoutEndSlashes (path : String) : String :=
  match path.toList.reverse.dropWhile (· = '/') with
  | [] => if path = "" then "" else "/"
  | rest => String.ofList rest.reverse

/-- A path below a directory, as a path of its own. -/
def underRoot (root path : String) : String :=
  if opensWith "/" path then path
  else if root = "" ∨ endsInSlash root then root ++ path
  else root ++ "/" ++ path

/-- The directory and the name of a file, from its path. What names nothing at the end of either is
left out. A path that ends in `..` has no name. -/
def splitPath? (path : String) : Option (String × String) :=
  match (pieces '/' path).reverse.dropWhile isIdle with
  | [] => none
  | name :: above =>
    if name = ".." then none
    else some (joined '/' (above.dropWhile isIdle).reverse, name)

end Rendition

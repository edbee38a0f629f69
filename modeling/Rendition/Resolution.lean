import Rendition.Directive.Chain
import Rendition.Fallbacks
import Rendition.Files.Basic
import Rendition.RequestPath

/-!
# Rendition.Resolution

Which file a request is answered from. A request that names a file is answered with it. Otherwise
its name is cut at underscores, as late as possible first: what stands before a cut is the name of a
source, under one of the extensions that may stand for the requested one, and the tokens behind it
are the directives still to be carried out. So a shorter derivative that exists wins over the source
of both.

The other way round, the ancestry of a file lists the files it may have been made from, nearest
first. A token that is no well-formed directive ends it: no file was made by carrying that out.

Both look at files through a function only, in whatever monad it lives.
-/

namespace Rendition

open Text

/-! ### Cutting a stem -/

/-- A stem cut into the stem of a source and the tokens behind it, in order. -/
structure Cut where
  base : String
  tokens : List String
  deriving DecidableEq, Repr

/-- The ways to cut a stem at one of its underscores, or not at all, longest base first. No base is
empty. -/
def cuts (stem : String) : List Cut :=
  let parts := pieces '_' stem
  ((List.range parts.length).reverse.map fun i =>
    { base := joined '_' (parts.take (i + 1)), tokens := parts.drop (i + 1) }).filter
      (·.base ≠ "")

/-- Does the token at the cut read as a directive? -/
def Cut.isGenerated (c : Cut) : Bool :=
  c.tokens.head?.any Directive.isWellFormed

/-- The cuts at underscores that a well-formed directive follows, and so do all behind them: the
names of the files that a file of this stem may have been made from. -/
def generatedCuts (stem : String) : List Cut :=
  ((cuts stem).drop 1).takeWhile Cut.isGenerated

/-! ### Looking for files -/

/-- A file that was found. -/
structure FoundFile where
  path : String
  stat : FileStat
  deriving DecidableEq

section Lookup

variable {m : Type → Type} [Monad m] (stat : String → m (Option FileStat))

/-- A file at a path; an entry of another kind does not count. -/
def regularFile (path : String) : m (Option FoundFile) := do
  pure (((← stat path).filter (·.isFile)).map fun s => ⟨path, s⟩)

/-- The path of a file in a directory. -/
def pathOf (dir base extension : String) : String :=
  dir ++ base ++ "." ++ extension

/-- The first file with a base name and one of the extensions that may stand for one. -/
def probe (fallbacks : Fallbacks) (dir base extension : String) : m (Option FoundFile) :=
  (fallbacks.candidates extension).findSomeM? fun candidate =>
    regularFile stat (pathOf dir base candidate)

/-! ### Resolution -/

/-- What a request is answered from. -/
inductive Resolution where
  /-- The file it names. -/
  | direct (file : FoundFile)
  /-- A source, the directives to carry out on it, and the extension of the result. -/
  | derived (source : FoundFile) (chain : Chain) (extension : String)
  deriving DecidableEq

/-- The file that is read. -/
def Resolution.file : Resolution → FoundFile
  | direct file => file
  | derived source _ _ => source

/-- Why a request cannot be answered. -/
inductive Unresolved where
  /-- There is no such file, and no extension that says what to make. -/
  | noExtension (path : RequestPath)
  /-- No file can be its source. -/
  | noSource (path : RequestPath)

/-- The error that reports an unresolved request. -/
def Unresolved.toError : Unresolved → Error
  | noExtension path => .notFound ("'" ++ path.text ++ "' does not exist and has no extension")
  | noSource path => .notFound ("no source file for '" ++ path.text ++ "'")

/-- The resolution by the first of some cuts that a file is found for. -/
def resolveCut (fallbacks : Fallbacks) (dir extension : String) :
    List Cut → m (Option Resolution)
  | [] => pure none
  | cut :: rest => do
    match ← probe stat fallbacks dir cut.base extension with
    | some source => pure (some (.derived source (Chain.ofTexts cut.tokens) extension))
    | none => resolveCut fallbacks dir extension rest

/-- Finds what a request is answered from. -/
def resolve (fallbacks : Fallbacks) (path : RequestPath) : m (Except Unresolved Resolution) := do
  match ← regularFile stat path.text with
  | some file => pure (.ok (.direct file))
  | none =>
    match splitExtension path.fileName with
    | none => pure (.error (.noExtension path))
    | some (stem, extension) =>
      match ← resolveCut stat fallbacks path.dir extension (cuts stem) with
      | some resolution => pure (.ok resolution)
      | none => pure (.error (.noSource path))

/-! ### Ancestry -/

/-- The files that are found for some cuts, in order. -/
def foundAt (fallbacks : Fallbacks) (dir extension : String) : List Cut → m (List FoundFile)
  | [] => pure []
  | cut :: rest => do
    let file ← probe stat fallbacks dir cut.base extension
    let others ← foundAt fallbacks dir extension rest
    pure (file.toList ++ others)

/-- The files that a path may have been made from, nearest first; the last one is its true
source. -/
def ancestry (fallbacks : Fallbacks) (path : RequestPath) : m (List FoundFile) :=
  match splitExtension path.fileName with
  | none => pure []
  | some (stem, extension) => foundAt stat fallbacks path.dir extension (generatedCuts stem)

end Lookup

end Rendition

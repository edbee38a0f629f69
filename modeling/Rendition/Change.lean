import Rendition.Log

/-!
# Rendition.Change

Changes below the image root. They are logged and nothing else: whether a file is stale is decided
by looking at times when a request is served.
-/

namespace Rendition

/-- What happened to an entry of the image root. -/
inductive Change where
  | create
  | modify
  | remove
  | access
  | unclassified
  deriving DecidableEq, Repr

namespace Change

/-- What the log calls a change, unless it is one that is not worth a line. -/
def label? : Change → Option String
  | create => some "created"
  | modify => some "modified"
  | remove => some "removed"
  | access | unclassified => none

end Change

end Rendition

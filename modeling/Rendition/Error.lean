/-!
# Rendition.Error

What a failing operation reports. An error has one of seven kinds, which decide how a request that
meets it is answered, and a detail, which is read by people only. The wording of every kind is in
`Error.message`.
-/

namespace Rendition

/-- The text of an error, and, where a parser, a decoder or the network gave a reason of its own,
that reason. -/
structure Detail where
  /-- What went wrong. -/
  text : String
  /-- Why, in the words of the part that noticed it. -/
  reason : Option String := none
  deriving DecidableEq, Repr, Inhabited

namespace Detail

instance : Coe String Detail := ⟨fun text => ⟨text, none⟩⟩

/-- The text, with its reason behind a colon. -/
def render (d : Detail) : String :=
  match d.reason with
  | none => d.text
  | some reason => d.text ++ ": " ++ reason

end Detail

/-- A failure, by kind. Only `fatalConfig` may end the process; each other kind is recovered from
while a request is answered. -/
inductive Error where
  /-- No file of that name, and no source and chain of directives that yield it. -/
  | notFound (detail : Detail)
  /-- A request path refused before any file was looked at. -/
  | badPath (detail : Detail)
  /-- A source that could not be decoded, transformed or encoded. -/
  | codec (detail : Detail)
  /-- A directive of a known kind without its mandatory fields. -/
  | malformedDirective (detail : Detail)
  /-- A key-value store that did not answer. -/
  | storeUnavailable (detail : Detail)
  /-- A configuration that cannot be loaded or applied. -/
  | fatalConfig (detail : Detail)
  /-- Any failure below, such as that of a file operation. -/
  | other (detail : Detail)
  deriving DecidableEq, Repr, Inhabited

namespace Error

/-- The detail of an error of any kind. -/
def detail : Error → Detail
  | notFound d | badPath d | codec d | malformedDirective d | storeUnavailable d | fatalConfig d
  | other d => d

/-- The words that a kind puts before the detail. -/
def heading : Error → String
  | notFound _ => "not found: "
  | badPath _ => "bad request path: "
  | codec _ => "codec error: "
  | malformedDirective _ => "malformed directive: "
  | storeUnavailable _ => "store unavailable: "
  | fatalConfig _ => "fatal configuration error: "
  | other _ => ""

/-- The whole text of an error. -/
def message (e : Error) : String :=
  e.heading ++ e.detail.render

/-- Is a request that meets this error answered as one for a missing file? A source that cannot be
decoded is as good as absent. -/
def isNotFound : Error → Bool
  | notFound _ | codec _ => true
  | _ => false

/-- The status code of the answer to a request that met this error. -/
def status : Error → Nat
  | badPath _ => 400
  | e => if e.isNotFound then 404 else 500

end Error

/-- How an operation that reads or moves a clock can end without a value: with an error that its
caller may recover from, or by leaving the range of the clock's arithmetic, which nothing recovers
from before the request is given up. -/
inductive Halt where
  | failed (error : Error)
  | overflow
  deriving DecidableEq, Repr, Inhabited

end Rendition

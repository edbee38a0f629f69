import Rendition.Engine
import Rendition.Time.HttpDate

/-!
# Rendition.Http.Response

The answers of the server. A successful one carries the type, the size and the validator of its
body, the date of its true source, and, if answers may be kept for a while, for how long. An answer
for a missing file may have a body too.
-/

namespace Rendition.Http

open Time

/-- An answer. The names of headers are in small letters. -/
structure Response where
  status : Nat
  headers : List (String × String)
  body : Content

/-- The body of answers for missing files. -/
structure Asset where
  body : Content
  contentType : String

/-- Reads the body of answers for missing files from a file. -/
def Asset.load {m : Type → Type} [Monad m] (read : String → ExceptT Error m Content)
    (path : String) : ExceptT Error m Asset :=
  match RequestPath.ofRequest path with
  | .error e => throw e
  | .ok path => do
    let body ← read path.text
    pure ⟨body, MediaType.ofExtension path.extension⟩

namespace Response

/-- The header with the size of a body, if it is known. -/
def lengthHeader (body : Content) : List (String × String) :=
  body.size?.toList.map fun size => ("content-length", toString size)

/-- A header with the date of a point of time, if there is a date for it. -/
def dateHeader? (name : String) (t : Timestamp) : Option (String × String) :=
  (httpDate? t).map fun date => (name, date)

/-- The headers that let an answer be kept for a number of seconds from `now` on; none for 0
seconds. -/
def freshnessHeaders? (maxAge : UInt64) (now : Timestamp) : Option (List (String × String)) :=
  if maxAge = 0 then some []
  else do
    let expires ← dateHeader? "expires" (← now.add? (.ofSeconds maxAge))
    let date ← dateHeader? "date" now
    some [("cache-control", "public, max-age=" ++ toString maxAge.toNat), expires, date]

/-- The header with the date of the true source. -/
def modifiedHeader? (lastModified : Option Timestamp) : Option (List (String × String)) :=
  match lastModified with
  | none => some []
  | some t => (dateHeader? "last-modified" t).map ([·])

/-- The answer to a request that was served, unless one of its dates cannot be written. -/
def ofServed? (served : Served) (maxAge : UInt64) (now : Timestamp) : Option Response := do
  let modified ← modifiedHeader? served.lastModified
  let freshness ← freshnessHeaders? maxAge now
  some
    { status := 200
      headers := [("content-type", served.contentType)] ++ lengthHeader served.body
        ++ served.etag?.toList.map (("etag", ·)) ++ modified ++ freshness
      body := served.body }

/-- An answer without a body. -/
def bare (status : Nat) (headers : List (String × String)) : Response where
  status := status
  headers := headers ++ [("content-length", "0")]
  body := .bytes .empty

/-- The answer to a request that failed. -/
def ofStatus (status : Nat) (notFound : Option Asset) : Response :=
  match notFound with
  | some asset =>
    if status = 404 then
      { status
        headers := [("content-type", asset.contentType)] ++ lengthHeader asset.body
        body := asset.body }
    else bare status []
  | none => bare status []

/-- An answer whose body is a text of the server's own. -/
def plain (status : Nat) (text : String) : Response where
  status := status
  headers := [("content-type", "text/plain; charset=utf-8")] ++ lengthHeader (.text text)
  body := .text text

/-- The answer without its body, as it is sent for a request that asks for the headers only. -/
def headOnly (r : Response) : Response :=
  { r with body := .bytes .empty }

end Response

end Rendition.Http

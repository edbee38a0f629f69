import Rendition.Http.Response
import Rendition.Http.Target
import Rendition.Text.Percent

/-!
# Rendition.Http.Router

From requests to answers. Every path is a request to the engine, with its percent-encoding undone
once; the root is the request for the empty path. Only `GET` and `HEAD` are allowed.
-/

namespace Rendition.Http

open Text Time

/-- What the server does with a path of a target. -/
inductive Route where
  /-- Asks the engine for a path. -/
  | serve (raw : String)
  /-- Refuses a path that does not decode to a text. -/
  | badEncoding
  /-- Knows no such path. -/
  | unknown
  deriving DecidableEq, Repr

/-- The route of a target. -/
def Route.ofTarget : Target → Route
  | .path text =>
    match text.toList with
    | ['/'] => .serve ""
    | '/' :: rest =>
      match percentDecode? (String.ofList rest) with
      | some raw => .serve raw
      | none => .badEncoding
    | _ => .unknown
  | .server | .authority => .unknown

/-- What the server is set up with. -/
structure Site (φ γ κ η : Type) where
  engine : Engine φ γ κ η
  /-- For how many seconds answers may be kept. -/
  maxAge : UInt64
  /-- The body of answers for missing files. -/
  notFound : Option Asset

namespace Site

variable {φ γ κ η : Type}

/-- The answer for what the engine answers; `none` if one of its dates cannot be written. A request
that was given up is a failure of the server. -/
def respond (site : Site φ γ κ η) (now : Timestamp) : Except Halt Served → Option Response
  | .ok served => Response.ofServed? served site.maxAge now
  | .error (.failed e) => some (.ofStatus e.status site.notFound)
  | .error .overflow => some (.ofStatus 500 none)

/-- Answers a request that asks for a body. -/
def get (site : Site φ γ κ η) (now : Timestamp) (target : Target) :
    StateM (World φ γ κ) (Option Response) :=
  match Route.ofTarget target with
  | .unknown => pure (some (.ofStatus 404 none))
  | .badEncoding => pure (some (.plain 400 "Invalid URL: Invalid UTF-8 in \x60path\x60"))
  | .serve raw => do
    let outcome ← (site.engine.serve raw).run
    pure (site.respond now outcome)

/-- Answers a request. -/
def handle (site : Site φ γ κ η) (now : Timestamp) (method : String) (target : Target) :
    StateM (World φ γ κ) (Option Response) :=
  match method with
  | "GET" => site.get now target
  | "HEAD" => do pure ((← site.get now target).map Response.headOnly)
  | _ =>
    match Route.ofTarget target with
    | .unknown => pure (some (.ofStatus 404 none))
    | .serve _ | .badEncoding => pure (some (.bare 405 [("allow", "GET,HEAD")]))

end Site

end Rendition.Http

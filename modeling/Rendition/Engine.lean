import Rendition.Cache.Basic
import Rendition.Codec.Execution
import Rendition.MediaType
import Rendition.Sampler
import Rendition.Staleness

/-!
# Rendition.Engine

Answering requests. An `Engine` puts together files, a codec, and a place for what was derived: the
disk, where a derivative lies beside its source and can serve as the source of a longer one, or a
store, where it stays for a while under the path of the request.

On disk, one request in an interval checks the file it is about to read and removes it, with what it
was made from, if it is stale; the request is then resolved anew. Nothing that goes wrong with that,
or with keeping a derivative, shows in the answer. Both modes answer a resolved request by the same
steps (`answer`) and differ in how they keep a derivative.
-/

namespace Rendition

open Time

/-- How an answer came about. -/
inductive Origin where
  /-- A file was read. -/
  | file
  /-- A chain was carried out. -/
  | derived
  /-- The store had it. -/
  | cached
  deriving DecidableEq, Repr

/-- An answer. -/
structure Served where
  body : Content
  contentType : String
  /-- When the true source that the body goes back to was modified; not known of the store's
  contents. -/
  lastModified : Option Timestamp
  origin : Origin

/-- The strong validator of an answer, if the bytes of its body are known. -/
def Served.etag? (s : Served) : Option String :=
  s.body.etag?

/-- Where derivatives are kept. -/
inductive Backend (γ : Type) where
  /-- As files, beside their sources. -/
  | disk
  /-- In a store, for a span of time. -/
  | store (cache : Cache γ) (ttl : Duration)

/-- The parts that requests are answered with. -/
structure Engine (φ γ κ η : Type) where
  files : FileSystem φ
  codec : Codec κ η
  fallbacks : Fallbacks
  backend : Backend γ

/-- The states of the parts, and the count of requests. -/
structure World (φ γ κ : Type) where
  files : φ
  cache : γ
  codec : κ
  sampler : Sampler

/-- A step of answering a request. -/
abbrev EngineM (φ γ κ : Type) := ExceptT Halt (StateM (World φ γ κ))

namespace EngineM

variable {φ γ κ α : Type}

/-- A look at files. -/
def looking (m : StateM φ α) : EngineM φ γ κ α := do
  let w ← get
  let (a, files) := m.run w.files
  set { w with files }
  pure a

/-- A call on files, with its outcome. -/
def filing (m : FilesM φ α) : EngineM φ γ κ (Except Error α) :=
  looking m.run

/-- A call on the store, with its outcome. -/
def caching (m : CacheM γ α) : EngineM φ γ κ (Except Halt α) := do
  let w ← get
  let (a, cache) := m.run w.cache
  set { w with cache }
  pure a

/-- A call on the codec, with its outcome. -/
def coding (m : CodecM κ α) : EngineM φ γ κ (Except Error α) := do
  let w ← get
  let (a, codec) := m.run w.codec
  set { w with codec }
  pure a

/-- Counts the request; the answer is whether it checks its file. -/
def picked : EngineM φ γ κ Bool := do
  let w ← get
  let (picked, sampler) := w.sampler.next
  set { w with sampler }
  pure picked

/-- The value of an outcome; an error ends the request. -/
def orFail : Except Error α → EngineM φ γ κ α
  | .ok a => pure a
  | .error e => throw (.failed e)

/-- An outcome as an option; an error is ignored and an overflow ends the request. -/
def orIgnore : Except Halt α → EngineM φ γ κ (Option α)
  | .ok a => pure (some a)
  | .error (.failed _) => pure none
  | .error .overflow => throw .overflow

end EngineM

namespace Engine

open EngineM

variable {φ γ κ η : Type} (engine : Engine φ γ κ η)

/-- Finds what a path is answered from. -/
def resolved (path : RequestPath) : EngineM φ γ κ Resolution := do
  let outcome ← looking (Rendition.resolve engine.files.stat engine.fallbacks path)
  orFail (outcome.mapError Unresolved.toError)

/-- When the true source of a file was modified; `own` if the file is a true source itself. -/
def trueSourceModified (file : String) (own : Timestamp) : EngineM φ γ κ Timestamp :=
  match RequestPath.ofRequest file with
  | .error _ => pure own
  | .ok path => do
    let levels ← looking (ancestry engine.files.stat engine.fallbacks path)
    pure ((levels.getLast?.map (·.stat.modified)).getD own)

/-- The answer with a body. -/
def served (path : RequestPath) (body : Content) (lastModified : Option Timestamp)
    (origin : Origin) : Served where
  body := body
  contentType := MediaType.ofExtension path.extension
  lastModified := lastModified
  origin := origin

/-- Carries out a chain on a source. -/
def derive (source : String) (chain : Chain) (extension : String) : EngineM φ γ κ Content := do
  let content ← orFail (← filing (engine.files.read source))
  let execution ← orFail (← coding (engine.codec.execute content chain extension))
  pure execution.result

/-- Answers a resolved request. A derivative is handed to `keep` with its chain. -/
def answer (keep : Chain → Content → EngineM φ γ κ Unit) (path : RequestPath) :
    Resolution → EngineM φ γ κ Served
  | .direct file => do
    let body ← orFail (← filing (engine.files.read file.path))
    let modified ← engine.trueSourceModified file.path file.stat.modified
    pure (served path body (some modified) .file)
  | .derived source chain extension => do
    let body ← engine.derive source.path chain extension
    keep chain body
    let modified ← engine.trueSourceModified source.path source.stat.modified
    pure (served path body (some modified) .derived)

/-! ### Disk mode -/

/-- Keeps a derivative as a file. The result of a bare conversion is not kept, as no chain leads
back from it to its source. -/
def keepOnDisk (path : RequestPath) (chain : Chain) (body : Content) : EngineM φ γ κ Unit := do
  if chain.isEmpty then pure ()
  else
    let _ ← filing (engine.files.write path.text body)

/-- Checks the file of a resolution. If it was stale the path is resolved anew; if it could not be
removed, or was fresh, the resolution stands. -/
def refreshed (path : RequestPath) (resolution : Resolution) : EngineM φ γ κ Resolution := do
  let onDisk ← orFail (RequestPath.ofRequest resolution.file.path)
  -- What a failing sweep removed before it failed stays removed.
  match ← filing (sweep engine.files engine.fallbacks onDisk) with
  | .ok true => engine.resolved path
  | .ok false | .error _ => pure resolution

/-- Answers a path from files alone. -/
def serveFromFiles (path : RequestPath) : EngineM φ γ κ Served := do
  let resolution ← engine.resolved path
  let resolution ← if ← picked then engine.refreshed path resolution else pure resolution
  engine.answer (engine.keepOnDisk path) path resolution

/-! ### Store mode -/

/-- Keeps a derivative in a store, for a span of time. -/
def keepInStore (cache : Cache γ) (ttl : Duration) (path : RequestPath) (body : Content) :
    EngineM φ γ κ Unit := do
  let _ ← orIgnore (← caching (do cache.set path.text body; cache.expire path.text ttl))

/-- Answers a path from a store, or from files if the store does not have it or does not answer. -/
def serveFromStore (cache : Cache γ) (ttl : Duration) (path : RequestPath) :
    EngineM φ γ κ Served := do
  match ← orIgnore (← caching (cache.get path.text)) with
  | some (some body) => pure (served path body none .cached)
  | some none | none =>
    let resolution ← engine.resolved path
    engine.answer (fun _ body => keepInStore cache ttl path body) path resolution

/-! ### Requests -/

/-- Answers a request for a path. -/
def serve (raw : String) : EngineM φ γ κ Served := do
  let path ← orFail (RequestPath.ofRequest raw)
  match engine.backend with
  | .disk => engine.serveFromFiles path
  | .store cache ttl => engine.serveFromStore cache ttl path

end Engine

end Rendition

import Rendition.Config
import Rendition.Http.Response
import Rendition.Log
import Rendition.Machine
import Rendition.Service

/-!
# Rendition.Startup

The start of the server, up to the moment at which it listens. It loads the configuration, opens the
log, enters the image root, prepares the engine, and watches the root if it is asked to. The first
step that goes wrong ends it. Only two things that go wrong are put up with: a log that cannot be
opened is the terminal, and an answer for missing files that cannot be read is an empty one.
-/

namespace Rendition

open Net

/-- What the command line says about a start. -/
structure StartOptions where
  /-- The path of the configuration. -/
  config : String := "deriva.json"
  /-- The port to listen on, in place of the configured one. -/
  port : Option UInt16 := none
  /-- How much to log, in place of the configured level. -/
  logLevel : Option UInt8 := none
  deriving DecidableEq, Repr

/-- The configuration with what the command line says in place. -/
def StartOptions.overriding (o : StartOptions) (c : Config) : Config :=
  { c with port := o.port.getD c.port, logLevel := o.logLevel.getD c.logLevel }

/-- A command line that says nothing changes nothing. -/
theorem StartOptions.overriding_default (c : Config) : ({} : StartOptions).overriding c = c := rfl

/-- A server that listens. -/
structure Started where
  config : Config
  /-- The path of the image root. -/
  root : String
  /-- The body of answers for missing files. -/
  notFound : Option Http.Asset

/-- Why a start failed. -/
inductive StartFailure where
  /-- A step before the last one was refused. -/
  | error (error : Error)
  /-- The server cannot listen at its address. -/
  | cannotListen (address : String) (cause : OsError)
  deriving DecidableEq

/-- The failure as it is reported. -/
def StartFailure.report : StartFailure → String
  | error e => e.message
  | cannotListen address cause => "bind " ++ address ++ "\n\nCaused by:\n    " ++ cause.text

namespace Startup

variable {m : Type → Type} [Monad m] (machine : Machine m)

/-- The error that reports a refused step on a path. -/
def refusal (step path : String) (e : OsError) : Error :=
  .fatalConfig (step ++ " '" ++ path ++ "': " ++ e.text)

/-- Loads and validates a configuration. -/
def loadConfig (path : String) : ExceptT Error m Config := do
  match ← (machine.openFile path : m _) with
  | .error e => throw (refusal "open config" path e)
  | .ok content =>
    ExceptT.mk (pure (Config.parse ("config '" ++ path ++ "'") (content.bind String.fromUTF8?)))

/-- Makes the image root the directory from which relative paths start; the answer is its path
without links and dots. -/
def enterRoot (path : String) : ExceptT Error m String := do
  match ← (machine.realPath path : m _) with
  | .error e => throw (refusal "image root" path e)
  | .ok root =>
    match ← (machine.enter root : m _) with
    | .error e => throw (refusal "enter image root" root e)
    | .ok () => pure root

/-- Watches a directory and those below it; the answer is the paths of all these. -/
def watchRoot (root : String) : ExceptT Error m (List String) := do
  match ← (machine.watch root : m _) with
  | .error e => throw (.fatalConfig ⟨"watch '" ++ root ++ "'", some e.text⟩)
  | .ok directories => pure directories

/-! ### Logging -/

/-- Logs an event, if a level shows it. -/
def report (level : UInt8) (event : LogEvent) : m Unit :=
  if event.severity.shownAt level then machine.log event else pure ()

/-- The event that a member of the configuration sets no option. -/
def ignoredKey (key : String) : LogEvent :=
  ⟨.warn, "deriva", "ignoring unknown configuration key", [("key", key)]⟩

/-- The event that a file cannot be the log. -/
def noLogFile (path : String) (e : OsError) : LogEvent :=
  ⟨.warn, "deriva::logging", "cannot open log file, logging to stderr",
    [("error", path ++ ": " ++ e.text)]⟩

/-- The event that the image root was entered. -/
def enteredRoot (root : String) (mode : CacheMode) : LogEvent :=
  ⟨.info, "deriva", "image root entered", [("root", root), ("mode", mode.name)]⟩

/-- The event that the answer for missing files cannot be read. -/
def noAsset (path : String) (e : Error) : LogEvent :=
  ⟨.warn, "deriva", "not-found asset unavailable", [("path", quoted path), ("error", e.message)]⟩

/-- The event that the system is asked to tell of changes. -/
def polling : LogEvent :=
  ⟨.trace, "mio::poll",
    "registering event source with poller: token=Token(0), interests=READABLE", []⟩

/-- The event that a directory, which may be one below the root, is watched. -/
def watchingDirectory (path : String) : LogEvent :=
  ⟨.trace, "notify::inotify", "adding inotify watch: " ++ path, []⟩

/-- The event that the root is watched. -/
def watchingRoot (root : String) : LogEvent :=
  ⟨.info, "deriva::watch", "watching image root", [("root", root)]⟩

/-- The event that the server listens. -/
def listening (address : String) : LogEvent :=
  ⟨.info, "deriva", "listening", [("addr", address)]⟩

/-- Opens the log that a configuration names. -/
def openLog (c : Config) : m Unit := do
  match c.logFile with
  | none => pure ()
  | some path =>
    match ← machine.openLog path with
    | .ok () => pure ()
    | .error e => report machine c.logLevel (noLogFile path e)

/-! ### The start -/

/-- Reads the answer for missing files that a configuration names, if it can be read. -/
def loadAsset (c : Config) (root : String) : m (Option Http.Asset) := do
  match c.notFound with
  | none => pure none
  | some path =>
    match ← (Http.Asset.load (machine.readBelow root) path).run with
    | .ok asset => pure (some asset)
    | .error e =>
      report machine c.logLevel (noAsset path e)
      pure none

/-- The steps of a start before it listens. -/
def prepare (options : StartOptions) : ExceptT Error m Started := do
  let config := options.overriding (← loadConfig machine options.config)
  (openLog machine config : m Unit)
  config.ignored.forM fun (key, _) => (report machine config.logLevel (ignoredKey key) : m Unit)
  let root ← enterRoot machine config.imageRoot
  (report machine config.logLevel (enteredRoot root config.cacheMode) : m Unit)
  -- Nothing is called yet, so any server will do to see whether the engine can be built.
  let _ ← ExceptT.mk (pure (Service.ofConfig config .absent))
  let notFound ← (loadAsset machine config root : m _)
  if config.watch then
    let directories ← watchRoot machine root
    let events := polling :: directories.map watchingDirectory ++ [watchingRoot root]
    events.forM fun event => (report machine config.logLevel event : m Unit)
  pure ⟨config, root, notFound⟩

/-- Starts the server. -/
def start (options : StartOptions) : ExceptT StartFailure m Started := do
  let started ← ExceptT.adapt StartFailure.error (prepare machine options)
  let config := started.config
  match ← (machine.listen config.bind config.port : m _) with
  | .error e => throw (.cannotListen config.bindAddress e)
  | .ok () =>
    (report machine config.logLevel (listening config.bindAddress) : m Unit)
    pure started

end Startup

end Rendition

import Rendition.Error
import Rendition.Files.Path
import Rendition.Json.Reader
import Rendition.Net.Address
import Rendition.Sampler
import Rendition.Text.Blank

/-!
# Rendition.Config

The options of the server, which it reads from one JSON document at startup. The document is an
object. Each of fifteen names in it sets the option of that name, which has a type of its own and
may be set once; an option that is not named has its default. All other members are kept aside, so
that they can be warned about. Some documents of the right types are still refused by `validate`.
-/

namespace Rendition

open Json Net Text

/-- Where derivatives are kept between requests. -/
inductive CacheMode where
  | disk
  | store
  deriving DecidableEq, Repr

/-- The name in the log. -/
def CacheMode.name : CacheMode → String
  | disk => "Disk"
  | store => "Store"

/-- The options of the server. -/
structure Config where
  /-- The image root. -/
  imageRoot : String
  /-- The port to listen on. -/
  port : UInt16
  /-- The address to listen on. -/
  bind : Address
  /-- How much to log, from errors only to everything. -/
  logLevel : UInt8
  /-- The file to log to; the terminal if there is none. -/
  logFile : Option String
  cacheMode : CacheMode
  /-- For how many seconds clients may keep answers. -/
  maxAge : UInt64
  /-- The file with the body of answers for missing files. -/
  notFound : Option String
  /-- The host of the store. -/
  storeHost : String
  /-- The port of the store. -/
  storePort : UInt16
  /-- For how many seconds the store keeps an entry. -/
  ttl : UInt64
  /-- One request in so many checks its file. -/
  invalidationInterval : UInt64
  /-- Are changes of the image root logged? -/
  watch : Bool
  /-- The lists of further extensions that replace built-in ones, in ascending order. -/
  fallbackExtensions : List (String × List String)
  /-- The most pixels of a picture, in all frames together. -/
  maxPixels : UInt64
  /-- The members of the document that set no option, in ascending order. -/
  ignored : Members

namespace Config

/-- The options when the document is empty. -/
def default : Config where
  imageRoot := "./"
  port := 2345
  bind := .v4 [0, 0, 0, 0]
  logLevel := 2
  logFile := none
  cacheMode := .disk
  maxAge := 0
  notFound := none
  storeHost := "localhost"
  storePort := 6379
  ttl := 60
  invalidationInterval := 16
  watch := false
  fallbackExtensions := []
  maxPixels := 67108864
  ignored := []

instance : Inhabited Config := ⟨default⟩

/-- The names of the options. -/
def optionNames : List String :=
  ["img_root", "port", "bind", "log_level", "log_file", "cache_mode", "max_age", "not_found",
    "store_host", "store_port", "ttl", "invalidation_interval", "watch", "fallback_extensions",
    "max_pixels"]

/-! ### The types of options -/

/-- A text. -/
def readText : Value → Option String
  | .text s => some s
  | _ => none

/-- A truth value. -/
def readBoolean : Value → Option Bool
  | .boolean b => some b
  | _ => none

/-- A word. -/
def readWord : Value → Option UInt64
  | .number (.natural n) => some n
  | _ => none

/-- A word of 16 bits. -/
def readPort (v : Value) : Option UInt16 := do
  let n ← readWord v
  if n.toNat < UInt16.size then some n.toUInt16 else none

/-- A word of 8 bits. -/
def readLevel (v : Value) : Option UInt8 := do
  let n ← readWord v
  if n.toNat < UInt8.size then some n.toUInt8 else none

/-- An address, as a text. -/
def readAddress (v : Value) : Option Address := do
  Address.parse? (← readText v)

/-- A value that may be left open with a null. -/
def readOptional {α : Type} (read : Value → Option α) : Value → Option (Option α)
  | .null => some none
  | v => (read v).map some

/-- The mode that a name selects. -/
def modeNamed? : String → Option CacheMode
  | "disk" => some .disk
  | "store" => some .store
  | _ => none

/-- A mode, by its name, which may also be the only member of an object, with a null. -/
def readMode : Value → Option CacheMode
  | .text name => modeNamed? name
  | .object [(name, .null)] => modeNamed? name
  | _ => none

/-- A list of texts. -/
def readTexts : Value → Option (List String)
  | .array items => items.mapM readText
  | _ => none

/-- Lists of texts by name. Of lists of one name the last one counts. -/
def readLists : Value → Option (List (String × List String))
  | .object members => do
    let lists ← members.mapM fun (name, v) => do some (name, ← readTexts v)
    some (sortedMembers lists)
  | _ => none

/-! ### Documents -/

/-- The value of an option: its default, unless it is named. -/
def option {α : Type} (members : Members) (name : String) (read : Value → Option α) (initial : α) :
    Option α :=
  match members.lookup name with
  | none => some initial
  | some v => read v

/-- Does a name set an option? -/
def isOption (name : String) : Bool :=
  optionNames.contains name

/-- Is each option set once at most? -/
def setsOnce (members : Members) : Bool :=
  decide ((members.map (·.1)).filter isOption).Nodup

/-- The options that the members of a document set. -/
def ofMembers? (members : Members) : Option Config :=
  if !setsOnce members then none
  else do
    some
      { imageRoot := ← option members "img_root" readText default.imageRoot
        port := ← option members "port" readPort default.port
        bind := ← option members "bind" readAddress default.bind
        logLevel := ← option members "log_level" readLevel default.logLevel
        logFile := ← option members "log_file" (readOptional readText) default.logFile
        cacheMode := ← option members "cache_mode" readMode default.cacheMode
        maxAge := ← option members "max_age" readWord default.maxAge
        notFound := ← option members "not_found" (readOptional readText) default.notFound
        storeHost := ← option members "store_host" readText default.storeHost
        storePort := ← option members "store_port" readPort default.storePort
        ttl := ← option members "ttl" readWord default.ttl
        invalidationInterval :=
          ← option members "invalidation_interval" readWord default.invalidationInterval
        watch := ← option members "watch" readBoolean default.watch
        fallbackExtensions :=
          ← option members "fallback_extensions" readLists default.fallbackExtensions
        maxPixels := ← option members "max_pixels" readWord default.maxPixels
        ignored := sortedMembers (members.filter fun (name, _) => !isOption name) }

/-- The options that a document sets. -/
def ofValue? : Value → Option Config
  | .object members => ofMembers? members
  | _ => none

/-! ### Validation -/

/-- Why options cannot be served with. -/
inductive Invalid where
  /-- The interval of checks is no power of two. -/
  | interval (interval : UInt64)
  /-- No picture would be small enough. -/
  | noPixels
  /-- There is no host to keep derivatives. -/
  | noHost
  deriving DecidableEq, Repr

/-- The error that reports invalid options. -/
def Invalid.toError : Invalid → Error
  | interval n =>
    .fatalConfig
      ("invalidation_interval must be a non-zero power of two, got " ++ toString n.toNat)
  | noPixels => .fatalConfig "max_pixels must be positive"
  | noHost => .fatalConfig "store_host is empty"

/-- What is wrong with options, if anything. -/
def invalid? (c : Config) : Option Invalid :=
  if !Sampler.isPowerOfTwo c.invalidationInterval then some (.interval c.invalidationInterval)
  else if c.maxPixels = 0 then some .noPixels
  else if c.cacheMode = .store ∧ isBlankText c.storeHost then some .noHost
  else none

/-- The options, unless something is wrong with them. -/
def validate (c : Config) : Except Error Config :=
  match c.invalid? with
  | none => .ok c
  | some fault => .error fault.toError

/-- Reads and validates the options in a text; `subject` says in errors what was read. -/
def parse (subject : String) (text : Option String) : Except Error Config :=
  match (text.bind Json.parse?).bind ofValue? with
  | none => .error (.fatalConfig ⟨"parse " ++ subject, some "not a document of options"⟩)
  | some c => c.validate

/-- Reads and validates the options in a text. -/
def ofText (text : String) : Except Error Config :=
  parse "config" (some text)

/-- The options are those of an empty document. -/
def isDefault (c : Config) : Bool :=
  samePath c.imageRoot default.imageRoot && c.port = default.port && c.bind = default.bind
    && c.logLevel = default.logLevel && c.logFile = default.logFile
    && c.cacheMode = default.cacheMode && c.maxAge = default.maxAge
    && c.notFound = default.notFound && c.storeHost = default.storeHost
    && c.storePort = default.storePort && c.ttl = default.ttl
    && c.invalidationInterval = default.invalidationInterval && c.watch = default.watch
    && c.fallbackExtensions = default.fallbackExtensions && c.maxPixels = default.maxPixels
    && c.ignored.isEmpty

/-- The address that the server listens on. -/
def bindAddress (c : Config) : String :=
  c.bind.withPort c.port

end Config

end Rendition

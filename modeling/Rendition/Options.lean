import Rendition.Startup
import Rendition.Text.Decimal

/-!
# Rendition.Options

The command line. Three options take a value, which is the next word or stands behind an equals sign
in the same word; two others ask for information and end the reading. Words are read from left to
right, and the first one that cannot be read ends the reading as well.
-/

namespace Rendition

open Text

/-- An option that takes a value. -/
inductive ValueOption where
  | config
  | port
  | logLevel
  deriving DecidableEq, Repr

/-- What a command line asks for. -/
inductive Invocation where
  | start (options : StartOptions)
  | help
  | version
  /-- It cannot be read, because of this word. -/
  | misuse (word : String)
  deriving DecidableEq, Repr

namespace Invocation

/-- The option of a name. -/
def optionNamed? : String → Option ValueOption
  | "--config" => some .config
  | "--port" => some .port
  | "--log-level" => some .logLevel
  | _ => none

/-! ### Values -/

/-- A number below a limit. -/
def number? (limit : Nat) (s : String) : Option Nat := do
  let n ← readInt? s
  if 0 ≤ n.toInt ∧ n.toInt < limit then some n.toInt.toNat else none

/-- The options with the value of one set, unless it was set before or is no value for it. -/
def set? (seen : List ValueOption) (options : StartOptions) (name : ValueOption)
    (value : String) : Option StartOptions :=
  if name ∈ seen then none
  else
    match name with
    | .config => if value = "" then none else some { options with config := value }
    | .port => (number? UInt16.size value).map fun n => { options with port := some n.toUInt16 }
    | .logLevel =>
      (number? UInt8.size value).map fun n => { options with logLevel := some n.toUInt8 }

/-- May a word be the value of the option in front of it? One that starts with a dash may be an
option itself. -/
def isValue (word : String) : Bool :=
  word = "-" || !opensWith "-" word

/-! ### Words -/

/-- What a word is. -/
inductive Word where
  /-- An option, whose value is the next word. -/
  | option (name : ValueOption)
  /-- An option with its value. -/
  | setting (name : ValueOption) (value : String)
  | help
  | version
  /-- The end of the options. -/
  | endOfOptions
  | unknown

/-- The word at the front of a command line. -/
def wordOf (word : String) : Word :=
  if word = "--" then .endOfOptions
  else if word = "--help" ∨ opensWith "-h" word then .help
  else if word = "--version" ∨ opensWith "-V" word then .version
  else
    match optionNamed? word with
    | some name => .option name
    | none =>
      let name := word.toList.takeWhile (· ≠ '=')
      match optionNamed? (String.ofList name), word.toList.drop name.length with
      | some name, _ :: value => .setting name (String.ofList value)
      | _, _ => .unknown

/-- Reads the words that follow the options seen so far. -/
def readWords (seen : List ValueOption) (options : StartOptions) : List String → Invocation
  | [] => .start options
  | word :: rest =>
    match wordOf word with
    | .help => .help
    | .version => .version
    | .unknown => .misuse word
    | .endOfOptions => if rest = [] then .start options else .misuse word
    | .setting name value =>
      match set? seen options name value with
      | some options => readWords (name :: seen) options rest
      | none => .misuse word
    | .option name =>
      match rest with
      | [] => .misuse word
      | value :: rest =>
        if isValue value then
          match set? seen options name value with
          | some options => readWords (name :: seen) options rest
          | none => .misuse word
        else .misuse word

/-- Reads a command line. -/
def ofWords (words : List String) : Invocation :=
  readWords [] {} words

example :
    ofWords ["--port", "80", "--config=c"] = .start { config := "c", port := some 80 } ∧
    ofWords ["--port", "65536"] = .misuse "--port" ∧
    ofWords ["--port", "-h"] = .misuse "--port" := by decide

end Invocation

/-! ### Information -/

/-- The name of the program and its version. -/
def versionText : String :=
  "deriva 0.1.0\n"

/-- How the program is used. -/
def helpText : String :=
  "On-demand image derivative server\n\nUsage: deriva [OPTIONS]\n\nOptions:\n"
    ++ "      --config <CONFIG>        JSON configuration file [default: deriva.json]\n"
    ++ "      --port <PORT>            Listening port (overrides the config file)\n"
    ++ "      --log-level <LOG_LEVEL>  Log verbosity 0..=4 (overrides the config file)\n"
    ++ "  -h, --help                   Print help\n"
    ++ "  -V, --version                Print version\n"

end Rendition

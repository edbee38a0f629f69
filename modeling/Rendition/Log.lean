import Rendition.Text.Visible

/-!
# Rendition.Log

The verbosity of the log: five severities, of which a level lets through those at least as severe
as its own.
-/

namespace Rendition

/-- How severe an event is, most severe first. -/
inductive Severity where
  | error
  | warn
  | info
  | debug
  | trace
  deriving DecidableEq, Repr

namespace Severity

/-- The place in the order of severity, from 0. -/
def rank : Severity → Nat
  | error => 0
  | warn => 1
  | info => 2
  | debug => 3
  | trace => 4

/-- The least severe events that a level shows; levels above 4 show all. -/
def ofLevel (level : UInt8) : Severity :=
  match level with
  | 0 => error
  | 1 => warn
  | 2 => info
  | 3 => debug
  | _ => trace

/-- The name in filters. -/
def name : Severity → String
  | error => "error"
  | warn => "warn"
  | info => "info"
  | debug => "debug"
  | trace => "trace"

/-- The name in lines of the log. -/
def label : Severity → String
  | error => "ERROR"
  | warn => "WARN"
  | info => "INFO"
  | debug => "DEBUG"
  | trace => "TRACE"

/-- Are events of severity `s` shown at a level? -/
def shownAt (s : Severity) (level : UInt8) : Bool :=
  s.rank ≤ (ofLevel level).rank

end Severity

/-! ### Quoting -/

/-- A character as it is written between quotes. -/
def quotedChar (c : Char) : String :=
  match c with
  | '"' => "\\\""
  | '\\' => "\\\\"
  | '\n' => "\\n"
  | '\r' => "\\r"
  | '\t' => "\\t"
  | '\x00' => "\\0"
  | c =>
    if Text.isVisible c then c.toString
    else "\\u\x7b" ++ String.ofList (Nat.toDigits 16 c.toNat) ++ "\x7d"

/-- A text between quotes. -/
def quoted (s : String) : String :=
  "\"" ++ String.join (s.toList.map quotedChar) ++ "\""

/-! ### Events -/

/-- An event of the log: its severity, the part of the program that reports it, what it says, and
the facts it names, in order. -/
structure LogEvent where
  severity : Severity
  part : String
  text : String
  facts : List (String × String)
  deriving DecidableEq, Repr

namespace LogEvent

/-- The event as a line of the log, without the time. -/
def line (e : LogEvent) : String :=
  e.severity.label ++ " " ++ e.part ++ ": " ++ e.text
    ++ String.join (e.facts.map fun (name, value) => " " ++ name ++ "=" ++ value)

/-- The event as a line of the log, behind its time. The severities fill a column of five. -/
def datedLine (date : String) (e : LogEvent) : String :=
  date ++ String.ofList (List.replicate (6 - e.severity.label.length) ' ') ++ e.line

end LogEvent

end Rendition

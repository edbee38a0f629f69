import Rendition.Content
import Rendition.Text.Blank
import Rendition.Text.Real

/-!
# Rendition.Cache.Reply

The replies of a store server and how they are sent. A reply starts with a character that says what
follows: a line of text, a number, a number of bytes, or a number of further replies. Lines end in a
carriage return and a line feed. A negative number in the place of a count stands for nothing.

Between its replies a server may make announcements, which answer no command. A reply may also come
with attributes, which are left out here. A failure within a reply makes the whole of it one.
-/

namespace Rendition

open Text

/-- A reply of a store server. -/
inductive Reply where
  /-- The command was carried out. -/
  | status (text : String)
  /-- The command was refused. -/
  | failure (text : String)
  | integer (value : Int64)
  | bigInteger (value : Int)
  | real (value : Float)
  | truth (value : Bool)
  | bulk (content : Content)
  /-- A text behind the name of its format and a colon. -/
  | verbatim (text : ByteArray)
  /-- There is nothing to send. -/
  | nothing
  /-- A list, or a set in some order. -/
  | array (items : List Reply)
  /-- Keys and values, each value behind its key. -/
  | map (items : List Reply)
  /-- Something that answers no command, with the failure that it holds. -/
  | announcement (failed : Option String)

namespace Reply

/-- The failure in a reply. -/
def failure? : Reply → Option String
  | failure text => some text
  | announcement failed => failed
  | _ => none

/-- A reply with parts, which is a failure if one of them is. -/
def unlessFailed (items : List Reply) (reply : Reply) : Reply :=
  match items.findSome? failure? with
  | some text => failure text
  | none => reply

/-! ### Lines and numbers -/

/-- Some bytes as UTF-8. -/
def utf8? (bytes : List UInt8) : Option String :=
  String.fromUTF8? ⟨bytes.toArray⟩

/-- The bytes of the line at the start of some bytes and those behind its end. -/
def lineBytes? : List UInt8 → Option (List UInt8 × List UInt8)
  | [] => none
  | 0x0D :: 0x0A :: rest => some ([], rest)
  | b :: rest => (lineBytes? rest).map fun (line, rest) => (b :: line, rest)

/-- The line at the start of some bytes, in UTF-8, and the bytes behind its end. -/
def line? (bytes : List UInt8) : Option (String × List UInt8) := do
  let (line, rest) ← lineBytes? bytes
  some (← utf8? line, rest)

/-- What a line at the start of some bytes is read as, and the bytes behind its end. -/
def lineAs? {α : Type} (read? : String → Option α) (bytes : List UInt8) :
    Option (α × List UInt8) := do
  let (line, rest) ← line? bytes
  some (← read? line, rest)

/-- The integer on the line at the start of some bytes. -/
def integer? : List UInt8 → Option (Int64 × List UInt8) :=
  lineAs? fun line => readInt? (trimBlanks line)

/-- The integer of any size that a text spells. Underscores may stand behind the first digit. -/
def bigInteger? (s : String) : Option Int :=
  let (negative, s) := cutSign s.toList
  if (s.head?.any isDigit) && s.all (fun c => isDigit c || c = '_') then
    let n := digitsValue (s.filter isDigit)
    some (if negative then -(n : Int) else n)
  else none

/-- A truth value by its initial. -/
def truth? : String → Option Bool
  | "t" => some true
  | "f" => some false
  | _ => none

/-- A number of bytes, which an end of line follows. -/
def block? (size : Nat) (bytes : List UInt8) : Option (List UInt8 × List UInt8) :=
  if bytes.length < size then none
  else
    match bytes.drop size with
    | 0x0D :: 0x0A :: rest => some (bytes.take size, rest)
    | _ => none

/-- A number of bytes behind a line with that number, `none` inside if it is negative. -/
def sizedBlock? (bytes : List UInt8) : Option (Option (List UInt8) × List UInt8) := do
  let (size, rest) ← integer? bytes
  if size < 0 then some (none, rest)
  else (block? size.toInt.toNat rest).map fun (block, rest) => (some block, rest)

/-! ### Parts -/

/-- A number of replies, one behind the other. -/
def readMany (read : List UInt8 → Option (Reply × List UInt8)) :
    (count : Nat) → List UInt8 → Option (List Reply × List UInt8)
  | 0, bytes => some ([], bytes)
  | count + 1, bytes => do
    let (reply, bytes) ← read bytes
    let (replies, bytes) ← readMany read count bytes
    some (reply :: replies, bytes)

/-- A reply with parts: behind a line with a number `n`, there are `partsOf n` of them. If it is
negative, `negative` says what is there instead. -/
def readParts (read : List UInt8 → Option (Reply × List UInt8)) (partsOf : Nat → Nat)
    (negative : Option Reply) (build : List Reply → Option Reply) (bytes : List UInt8) :
    Option (Reply × List UInt8) := do
  let (count, rest) ← integer? bytes
  if count < 0 then some (← negative, rest)
  else
    let (items, rest) ← readMany read (partsOf count.toInt.toNat) rest
    some (← build items, rest)

/-- A list of parts. -/
def ofArray (items : List Reply) : Option Reply :=
  some (unlessFailed items (array items))

/-- Parts that are keys and values in turn. -/
def ofMap (items : List Reply) : Option Reply :=
  some (unlessFailed items (map items))

/-- A reply behind its attributes. -/
def ofAttributed (items : List Reply) : Option Reply :=
  items.getLast?.map (unlessFailed items)

/-- An announcement, which has its kind in front. -/
def ofAnnouncement : List Reply → Option Reply
  | [] => some (announcement none)
  | status _ :: items => some (announcement (items.findSome? failure?))
  | bulk (.bytes b) :: items =>
    (String.fromUTF8? b).map fun _ => announcement (items.findSome? failure?)
  | _ => none

/-! ### Replies -/

/-- The reply at the start of some bytes, with replies in replies up to a depth, and the bytes
behind it. -/
def read : (depth : Nat) → List UInt8 → Option (Reply × List UInt8)
  | 0, _ | _, [] => none
  | depth + 1, kind :: bytes =>
    match Char.ofUInt8 kind with
    | '+' => lineAs? (some ∘ status) bytes
    | '-' => lineAs? (some ∘ failure) bytes
    | ':' => (integer? bytes).map fun (value, rest) => (integer value, rest)
    | '(' => lineAs? (fun line => (bigInteger? line).map bigInteger) bytes
    | ',' => lineAs? (fun line => (readReal? (trimBlanks line)).map real) bytes
    | '#' => lineAs? (fun line => (truth? line).map truth) bytes
    | '_' => lineAs? (fun _ => some nothing) bytes
    | '$' => do
      let (block, rest) ← sizedBlock? bytes
      some (block.elim nothing fun b => bulk (.bytes ⟨b.toArray⟩), rest)
    | '!' => do
      let (block, rest) ← sizedBlock? bytes
      some (failure ((utf8? (← block)).getD ""), rest)
    | '=' => do
      let (block, rest) ← sizedBlock? bytes
      let text ← block
      if ':'.toUInt8 ∈ text then some (verbatim ⟨text.toArray⟩, rest) else none
    | '*' | '~' => readParts (read depth) id (some nothing) ofArray bytes
    | '%' => readParts (read depth) (2 * ·) none ofMap bytes
    | '|' => readParts (read depth) (2 * · + 1) none ofAttributed bytes
    | '>' => readParts (read depth) id (some (announcement none)) ofAnnouncement bytes
    | _ => none

/-- How deep replies may lie in replies. -/
def depthLimit : Nat := 100

/-- The first reply of some bytes that is no announcement, among as many as `count`, and the bytes
behind it. -/
def firstOf : (count : Nat) → List UInt8 → Option (Reply × List UInt8)
  | 0, _ => none
  | count + 1, bytes => do
    match ← read depthLimit bytes with
    | (announcement _, rest) => firstOf count rest
    | (reply, rest) => some (reply, rest)

/-- The first reply of some bytes that is no announcement, and the bytes behind it. -/
def next? (bytes : List UInt8) : Option (Reply × List UInt8) :=
  -- Each reply takes a byte at least.
  firstOf bytes.length bytes

/-! ### Replies as values -/

/-- A byte in decimal digits, with or without a plus sign. -/
def decimalByte? (s : String) : Option UInt8 := do
  let digits := match s.toList with
    | '+' :: digits => digits
    | digits => digits
  let n ← readNat? (String.ofList digits)
  if n < 256 then some (UInt8.ofNat n) else none

/-- The byte that a reply holds in a list of bytes. Of an integer it is the lowest byte. Of a real
number it is the nearest byte towards zero. -/
def byte? : Reply → Option UInt8
  | integer value => some (UInt8.ofInt value.toInt)
  | real value => some value.toUInt8
  | status text => decimalByte? text
  | bulk (.bytes b) => (String.fromUTF8? b).bind decimalByte?
  | _ => none

/-- The content that the reply to a question for one holds: `some none` if there is none, and
`none` if the reply is no answer to such a question. -/
def content? : Reply → Option (Option Content)
  | nothing => some none
  | bulk content => some (some content)
  | array items => (items.mapM byte?).map fun bytes => some (.bytes ⟨bytes.toArray⟩)
  | map [] => some (some (.bytes .empty))
  | _ => none

end Reply

end Rendition

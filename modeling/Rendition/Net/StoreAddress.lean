import Rendition.Error
import Rendition.Net.Address
import Rendition.Net.Query
import Rendition.Net.Segments
import Rendition.Text.Percent

/-!
# Rendition.Net.StoreAddress

Where a store server is reached. The address is a URI of the scheme `redis`, put together from a
host and a port. The host may bring a user with a password in front of it. It may also end the
authority early; what follows is then a path, which selects a database by number, and a query,
which selects a version of the protocol.
-/

namespace Rendition.Net

open Text

/-- A version of the protocol that a store server speaks. -/
inductive StoreProtocol where
  | second
  | third
  deriving DecidableEq, Repr

/-- The parts of the address of a store server. -/
structure StoreAddress where
  user : String
  password : String
  host : String
  /-- The port, if the address names one. -/
  port : Option UInt16
  database : Int64
  protocol : StoreProtocol
  deriving DecidableEq, Repr

namespace StoreAddress

/-- The address as a URI. -/
def uri (host : String) (port : UInt16) : String :=
  "redis://" ++ host ++ ":" ++ toString port.toNat ++ "/"

/-- Is it one of the characters that vanish from a URI? -/
def isVanishing (c : Char) : Bool :=
  c = '\t' || c = '\n' || c = '\r'

/-- Does a character end an authority? -/
def endsAuthority (c : Char) : Bool :=
  c = '/' || c = '?' || c = '#'

/-! ### User -/

/-- The user and the password of an address, still encoded, and what follows them. They end at the
last `@` of the authority. -/
def cutUser (s : List Char) : (List Char × List Char) × List Char :=
  let authority := s.takeWhile (!endsAuthority ·)
  match cutLastChars '@' authority with
  | none => (([], []), s)
  | some (user, rest) =>
    ((user.takeWhile (· ≠ ':'), (user.dropWhile (· ≠ ':')).drop 1), rest ++ s.drop authority.length)

/-! ### Host -/

/-- The host at the start of a text and what follows it. A colon ends it, unless it stands in
brackets. -/
def cutHost : (bracketed : Bool) → List Char → List Char × List Char
  | _, [] => ([], [])
  | bracketed, c :: rest =>
    if endsAuthority c || (c = ':' && !bracketed) then ([], c :: rest)
    else
      -- Brackets do not nest: one that closes ends whatever was opened.
      let bracketed := if c = '[' then true else if c = ']' then false else bracketed
      let (host, rest) := cutHost bracketed rest
      (c :: host, rest)

/-- The characters that no name of a host has. -/
def hostExclusions : List Char :=
  ['\x00', '\t', '\n', '\r', ' ', '#', '/', ':', '<', '>', '?', '@', '[', '\\', ']', '^', '|']

/-- Is it a host: an address of the sixth version in brackets, or a name? -/
def isHost (host : List Char) : Bool :=
  match host with
  | [] => false
  | '[' :: rest =>
    rest.getLast? = some ']' && (Address.sixth? (String.ofList rest.dropLast)).isSome
  | _ => host.all fun c => !hostExclusions.contains c

/-! ### Port -/

/-- May a port end in front of a text? -/
def endsPort : List Char → Bool
  | [] => true
  | c :: _ => endsAuthority c || c = '\\'

/-- The port at the start of a text, if there is one, and what follows it. A colon without digits
names none. -/
def cutPort? : List Char → Option (Option UInt16 × List Char)
  | ':' :: rest =>
    let digits := rest.takeWhile isDigit
    let rest := rest.drop digits.length
    if !endsPort rest || 65535 < digitsValue digits then none
    else some (if digits.isEmpty then none else some (UInt16.ofNat (digitsValue digits)), rest)
  | s => some (none, s)

/-! ### Database and protocol -/

/-- A text without the slashes at both ends. -/
def trimSlashes (s : List Char) : List Char :=
  ((s.dropWhile (· = '/')).reverse.dropWhile (· = '/')).reverse

/-- Does a character end a path? -/
def endsPath (c : Char) : Bool :=
  c = '?' || c = '#'

/-- The segments of a path, which need not start with a slash. -/
def segments : List Char → List (List Char)
  | '/' :: path => path.splitOn '/'
  | path => path.splitOn '/'

/-- The database that a path selects; the first one, if it names none. -/
def database? (path : List Char) : Option Int64 :=
  match trimSlashes (['/'].intercalate (withoutDots (segments path))) with
  | [] => some 0
  | name => readInt? (String.ofList name)

/-- The versions of the protocol by the names that they have in a query. -/
def protocolNames : List (String × StoreProtocol) :=
  [("2", .second), ("resp2", .second), ("3", .third), ("resp3", .third)]

/-- The version of the protocol that a query selects; the second one, if it names none. -/
def protocol? (query : List Char) : Option StoreProtocol :=
  match queryValue? "protocol" query with
  | none => some .second
  | some value => (protocolNames.find? (·.1.toUTF8 == value)).map (·.2)

/-- The query at the start of a text that follows a path. A number sign ends it. -/
def queryOf : List Char → List Char
  | '?' :: rest => rest.takeWhile (· ≠ '#')
  | _ => []

/-! ### Addresses -/

/-- Reads what stands behind the scheme of an address. -/
def parse? (s : List Char) : Option StoreAddress := do
  let ((user, password), s) := cutUser (s.filter (!isVanishing ·))
  let (host, s) := cutHost false s
  let (port, s) ← cutPort? s
  let path := s.takeWhile (!endsPath ·)
  if isHost host then
    some
      { user := ← percentDecode? (String.ofList user)
        password := ← percentDecode? (String.ofList password)
        host := String.ofList host
        port
        database := ← database? path
        protocol := ← protocol? (queryOf (s.drop path.length)) }
  else none

/-- The address of the server at a host and a port. -/
def ofHost (host : String) (port : UInt16) : Except Error StoreAddress :=
  match parse? (host ++ ":" ++ toString port.toNat ++ "/").toList with
  | some address => .ok address
  | none =>
    .error (.fatalConfig ⟨"invalid store address " ++ uri host port, some "not an address"⟩)

end StoreAddress

end Rendition.Net

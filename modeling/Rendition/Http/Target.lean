import Rendition.Text.Pieces

/-!
# Rendition.Http.Target

The targets of HTTP requests. A target is a path with an optional query, a whole URI, an asterisk,
or the authority of another server. Of the first two only the path counts: queries and fragments are
dropped. Characters outside ASCII are let through in paths and queries.
-/

namespace Rendition.Http

/-- What a request is for. -/
inductive Target where
  /-- A path, which starts with a slash, as it was written. -/
  | path (text : String)
  /-- The server as a whole. -/
  | server
  /-- Another server. -/
  | authority
  deriving DecidableEq, Repr

namespace Target

/-! ### Characters -/

/-- Does the code of `c` lie in one of some ranges, ends included? -/
def within (ranges : List (Nat × Nat)) (c : Char) : Bool :=
  ranges.any fun (low, high) => low ≤ c.toNat && c.toNat ≤ high

/-- Is `c` a letter or a digit of ASCII? -/
def isAlphanumeric (c : Char) : Bool :=
  within [(0x30, 0x39), (0x41, 0x5A), (0x61, 0x7A)] c

/-- May `c` stand in a path? Besides the characters of a URI these are quotes and braces, which some
clients send as they are. -/
def isPathChar (c : Char) : Bool :=
  within [(0x21, 0x22), (0x24, 0x3B), (0x3D, 0x3D), (0x40, 0x5F), (0x61, 0x10FFFF)] c

/-- May `c` stand in a query? -/
def isQueryChar (c : Char) : Bool :=
  within [(0x21, 0x21), (0x24, 0x3B), (0x3D, 0x3D), (0x3F, 0x10FFFF)] c

/-- May `c` stand in the name of a scheme? -/
def isSchemeChar (c : Char) : Bool :=
  isAlphanumeric c || ['+', '-', '.', '~'].contains c

/-- May `c` stand in an authority, apart from those with a meaning there? -/
def isAuthorityChar (c : Char) : Bool :=
  isAlphanumeric c
    || ['!', '$', '&', '\'', '(', ')', '*', '+', ',', '-', '.', ';', '=', '_', '~'].contains c

/-! ### Paths -/

/-- The path of a text that goes on with a query or a fragment, if all its characters may stand
where they do. An empty path is the root. -/
def cutPath? (s : List Char) : Option String :=
  let path := s.takeWhile fun c => c ≠ '?' && c ≠ '#'
  let queryIsFine := match s.dropWhile fun c => c ≠ '?' && c ≠ '#' with
    | '?' :: rest => (rest.takeWhile (· ≠ '#')).all isQueryChar
    | _ => true
  if path.all isPathChar && queryIsFine then
    some (if path.isEmpty then "/" else String.ofList path)
  else none

/-! ### Authorities -/

/-- What was seen of an authority. -/
structure AuthorityScan where
  /-- Colons since the last `@` or `]`. -/
  colons : Nat := 0
  opened : Bool := false
  closed : Bool := false
  /-- A percent sign since the last `@` or `]`. -/
  percent : Bool := false
  /-- Was the last character an `@`? -/
  atEnd : Bool := false

/-- The most colons at a stretch. -/
def mostColons : Nat := 8

/-- Takes a character of an authority into account, if it may stand there. -/
def AuthorityScan.next? (a : AuthorityScan) (c : Char) : Option AuthorityScan :=
  let a := { a with atEnd := false }
  match c with
  | ':' => if mostColons ≤ a.colons then none else some { a with colons := a.colons + 1 }
  | '[' => if a.percent || a.opened then none else some { a with opened := true }
  | ']' =>
    if !a.opened || a.closed then none
    else some { a with closed := true, colons := 0, percent := false }
  | '@' => some { a with colons := 0, percent := false, atEnd := true }
  | '%' => some { a with percent := true }
  | c => if isAuthorityChar c then some a else none

/-- Is what was seen a whole authority? A host has at most one colon, before its port. -/
def AuthorityScan.isWhole (a : AuthorityScan) : Bool :=
  a.opened == a.closed && a.colons ≤ 1 && !a.atEnd && !a.percent

/-- Does a character end an authority? -/
def endsAuthority (c : Char) : Bool :=
  c = '/' || c = '?' || c = '#'

/-- What follows the authority at the start of a text, which may be empty. -/
def afterAuthority? (s : List Char) : Option (List Char) := do
  let a ← (s.takeWhile (!endsAuthority ·)).foldlM AuthorityScan.next? {}
  if a.isWhole then some (s.dropWhile (!endsAuthority ·)) else none

/-! ### Whole targets -/

/-- The longest name of a scheme. -/
def longestScheme : Nat := 64

/-- What follows the scheme at the start of a text, if it starts with one; `none` if the name of the
scheme is too long. -/
def afterScheme? (s : List Char) : Option (Option (List Char)) :=
  let name := s.takeWhile isSchemeChar
  match s.drop name.length with
  | ':' :: '/' :: '/' :: rest =>
    if s.length ≤ 3 then some none
    else if longestScheme < name.length then none
    else some (some rest)
  | _ => some none

/-- The longest target, in bytes. -/
def longestTarget : Nat := 65534

/-- Reads a target. -/
def parse? (s : String) : Option Target :=
  if longestTarget < s.utf8ByteSize then none
  else
    match s.toList with
    | [] => none
    | ['*'] => some .server
    | '/' :: rest => (cutPath? ('/' :: rest)).map .path
    | chars =>
      match afterScheme? chars with
      | none => none
      | some none =>
        match afterAuthority? chars with
        | some [] => some .authority
        | _ => none
      | some (some rest) => do
        let tail ← afterAuthority? rest
        if tail.length = rest.length then none else (cutPath? tail).map .path

example : parse? "http://h?x" = some (.path "/") ∧ parse? "h:1" = some .authority ∧
    parse? "a/b" = none := by decide

end Target

end Rendition.Http

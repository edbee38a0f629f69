import Rendition.Text.Decimal
import Rendition.Text.Hex
import Rendition.Text.Pieces

/-!
# Rendition.Net.Address

Addresses of the internet protocol, in both versions. An address of the fourth version is written as
four decimal numbers without leading zeros. One of the sixth is written as eight hexadecimal groups,
of which a run of zeros may be left out once and the last two may be written as an address of the
fourth version. It is printed with its longest run of two or more zeros left out, the first of equal
length, and with its last two groups as an address only behind `::ffff:`.
-/

namespace Rendition.Net

open Text

/-- An address. -/
inductive Address where
  | v4 (octets : List UInt8)
  | v6 (groups : List UInt16)
  deriving DecidableEq, Repr

namespace Address

/-! ### Reading -/

/-- A number of an address of the fourth version. -/
def octet? (s : String) : Option UInt8 := do
  let n ← readNat? s
  if 255 < n ∨ (s.length ≠ 1 ∧ s.toList.head? = some '0') then none else some (UInt8.ofNat n)

/-- An address of the fourth version. -/
def octets? (s : String) : Option (List UInt8) :=
  match pieces '.' s with
  | [a, b, c, d] => [a, b, c, d].mapM octet?
  | _ => none

/-- A group of an address of the sixth version. -/
def group? (s : String) : Option UInt16 :=
  if s.length < 1 ∨ 4 < s.length then none
  else do
    let digits ← s.toList.mapM hexValue?
    some (UInt16.ofNat (digits.foldl (fun n d => 16 * n + d) 0))

/-- The two groups of an address of the fourth version. -/
def groupsOf (octets : List UInt8) : List UInt16 :=
  match octets with
  | [a, b, c, d] =>
    [UInt16.ofNat (256 * a.toNat + b.toNat), UInt16.ofNat (256 * c.toNat + d.toNat)]
  | _ => []

/-- Groups between single colons, of which the last may be an address of the fourth version if that
is allowed. -/
def groups? (allowMixed : Bool) : List String → Option (List UInt16)
  | [] => some []
  | [last] =>
    match group? last with
    | some g => some [g]
    | none => if allowMixed then (octets? last).map groupsOf else none
  | first :: rest => do
    let g ← group? first
    let gs ← groups? allowMixed rest
    some (g :: gs)

/-- The texts before and after the first pair of colons, if there is one. -/
def cutPair : List Char → Option (List Char × List Char)
  | ':' :: ':' :: rest => some ([], rest)
  | c :: rest => (cutPair rest).map fun (before, after) => (c :: before, after)
  | [] => none

/-- The groups of a text that may be empty. -/
def side? (allowMixed : Bool) (s : List Char) : Option (List UInt16) :=
  if s.isEmpty then some [] else groups? allowMixed (pieces ':' (String.ofList s))

/-- An address of the sixth version. A pair of colons stands for one group at least. -/
def sixth? (s : String) : Option (List UInt16) :=
  match cutPair s.toList with
  | none => do
    let gs ← side? true s.toList
    if gs.length = 8 then some gs else none
  | some (before, after) => do
    let head ← side? false before
    let tail ← side? true after
    let missing := 8 - (head.length + tail.length)
    if head.length + tail.length < 8 then some (head ++ List.replicate missing 0 ++ tail) else none

/-- Reads an address of either version. -/
def parse? (s : String) : Option Address :=
  match octets? s with
  | some octets => some (.v4 octets)
  | none => (sixth? s).map .v6

/-! ### Printing -/

/-- The four numbers. -/
def octetsText (octets : List UInt8) : String :=
  ".".intercalate (octets.map fun o => toString o.toNat)

/-- A group, in small letters and without leading zeros. -/
def groupText (g : UInt16) : String :=
  String.ofList (Nat.toDigits 16 g.toNat)

/-- Groups between colons. -/
def groupsText (groups : List UInt16) : String :=
  ":".intercalate (groups.map groupText)

/-- The zeros at the start of groups. -/
def leadingZeros (groups : List UInt16) : Nat :=
  (groups.takeWhile (· = 0)).length

/-- Where the longest run of zeros starts and how long it is; the first of equal length. -/
def longestRun : (start : Nat) → List UInt16 → Nat × Nat
  | _, [] => (0, 0)
  | start, g :: rest =>
    let here := leadingZeros (g :: rest)
    let later := longestRun (start + 1) rest
    if here = 0 ∨ here < later.2 then later else (start, here)

/-- The groups with a run of zeros left out. -/
def sixthText (groups : List UInt16) : String :=
  match groups with
  | [0, 0, 0, 0, 0, 0xffff, high, low] =>
    "::ffff:" ++ octetsText
      [(high / 256).toUInt8, high.toUInt8, (low / 256).toUInt8, low.toUInt8]
  | _ =>
    let (start, length) := longestRun 0 groups
    if 1 < length then
      groupsText (groups.take start) ++ "::" ++ groupsText (groups.drop (start + length))
    else groupsText groups

/-- Prints an address. -/
def text : Address → String
  | v4 octets => octetsText octets
  | v6 groups => sixthText groups

/-- Prints an address with a port. -/
def withPort (a : Address) (port : UInt16) : String :=
  match a with
  | v4 _ => a.text ++ ":" ++ toString port.toNat
  | v6 _ => "[" ++ a.text ++ "]:" ++ toString port.toNat

end Address

end Rendition.Net

/-!
# Rendition.Text.Decimal

Decimal numbers: writing one with zeros in front up to a width, and reading digits, with or without
a sign.
-/

namespace Rendition.Text

/-- Is `c` a digit of ASCII? -/
def isDigit (c : Char) : Bool :=
  '0' ≤ c && c ≤ '9'

/-- The value of a digit. -/
def digitValue (c : Char) : Nat :=
  c.toNat - '0'.toNat

/-- The number that digits spell. -/
def digitsValue (digits : List Char) : Nat :=
  digits.foldl (fun n c => 10 * n + digitValue c) 0

/-- The number that a text of digits spells; the empty text spells none. -/
def readNat? (s : String) : Option Nat :=
  if s.toList ≠ [] ∧ s.toList.all isDigit then some (digitsValue s.toList) else none

/-- The integer that a text spells: digits behind at most one sign, whose value fits a signed word
of 64 bits. -/
def readInt? (s : String) : Option Int64 := do
  let value ← match s.toList with
    | '-' :: digits => (readNat? (String.ofList digits)).map fun n => -(n : Int)
    | '+' :: digits => (readNat? (String.ofList digits)).map Int.ofNat
    | _ => (readNat? s).map Int.ofNat
  if Int64.minValue.toInt ≤ value ∧ value ≤ Int64.maxValue.toInt then some (Int64.ofInt value)
  else none

/-- The decimal digits of `n`, with zeros in front up to a width. -/
def paddedDigits (width n : Nat) : String :=
  let digits := Nat.toDigits 10 n
  String.ofList (List.replicate (width - digits.length) '0' ++ digits)

end Rendition.Text

import Rendition.Json.Value
import Rendition.Text.Decimal

/-!
# Rendition.Json.Numeral

The numbers of JSON texts. An integer without fraction and exponent is a word where it fits. All
else is a double, found from as many leading digits as fit a word: these are converted, rounded to
the nearest, and multiplied or divided by a power of ten, rounded again. Digits of the integer that
do not fit count as zeros and digits of the fraction that do not fit are dropped. A number beyond
the largest double is refused; one below the smallest is zero. Negative zero is a double.
-/

namespace Rendition.Json

open Text

/-- The parts of a numeral. -/
structure Numeral where
  negative : Bool
  whole : List Char
  /-- The digits behind the point, if there is one. -/
  fraction : Option (List Char)
  /-- Is the exponent negative, and its digits, if there is one. -/
  exponent : Option (Bool × List Char)

/-! ### Cutting a text -/

/-- The digits at the start of a text, at least one, and what follows them. -/
def digits? (s : List Char) : Option (List Char × List Char) :=
  match s.takeWhile isDigit with
  | [] => none
  | digits => some (digits, s.dropWhile isDigit)

/-- The integer at the start of a text: a single zero, or digits of which the first is no zero. -/
def wholeDigits? (s : List Char) : Option (List Char × List Char) :=
  match s with
  | '0' :: rest => if (rest.head?.map isDigit).getD false then none else some (['0'], rest)
  | _ => digits? s

/-- The numeral at the start of a text and what follows it. -/
def Numeral.scan? (s : List Char) : Option (Numeral × List Char) := do
  let (negative, s) := match s with
    | '-' :: rest => (true, rest)
    | _ => (false, s)
  let (whole, s) ← wholeDigits? s
  let (fraction, s) ← match s with
    | '.' :: rest => (digits? rest).map fun (d, rest) => (some d, rest)
    | _ => some (none, s)
  let (exponent, s) ← match s with
    | 'e' :: rest | 'E' :: rest =>
      let (down, rest) := match rest with
        | '-' :: rest => (true, rest)
        | '+' :: rest => (false, rest)
        | _ => (false, rest)
      (digits? rest).map fun (d, rest) => (some (down, d), rest)
    | _ => some (none, s)
  some ({ negative, whole, fraction, exponent }, s)

/-! ### Doubles -/

/-- The largest word. -/
def largestWord : Nat := UInt64.size - 1

/-- Reads digits behind a number as long as the result fits a word: the result and the digits
left. -/
def takeDigits : (n : Nat) → List Char → Nat × List Char
  | n, [] => (n, [])
  | n, c :: rest =>
    let next := 10 * n + digitValue c
    if largestWord < next then (n, c :: rest) else takeDigits next rest

/-- The largest power of ten that is a double. -/
def largestPower : Nat := 308

/-- A power of ten as a double. -/
def tenTo (n : Nat) : Float := Float.ofScientific 1 false n

/-- A double divided by ten a number of times, in steps of the largest power. -/
def divideByTens (steps : Nat) (f : Float) (n : Nat) : Float :=
  match steps with
  | 0 => f
  | steps + 1 =>
    if n ≤ largestPower then f / tenTo n
    else divideByTens steps (f / tenTo largestPower) (n - largestPower)

/-- Divisions by the largest power after which every double is zero. -/
def enoughSteps : Nat := 5

/-- `n` times a power of ten as a double, unless it is too large. -/
def scaled? (n : Nat) (power : Int) : Option Float :=
  let f := (UInt64.ofNat n).toFloat
  if power < 0 then some (divideByTens enoughSteps f power.natAbs)
  else if n = 0 then some f
  else if largestPower < power.toNat then none
  else
    let g := f * tenTo power.toNat
    if g.isInf then none else some g

namespace Numeral

/-- The power of ten in the exponent. -/
def power (n : Numeral) : Int :=
  match n.exponent with
  | none => 0
  | some (true, digits) => -(digitsValue digits : Int)
  | some (false, digits) => digitsValue digits

/-- The numeral as a double, by its absolute value. -/
def magnitude? (n : Numeral) : Option Float :=
  let fraction := n.fraction.getD []
  let (value, zeros) := takeDigits 0 n.whole
  let (value, dropped) := takeDigits value fraction
  scaled? value (zeros.length - (fraction.length - dropped.length : Nat) + n.power)

/-- The numeral as a double. -/
def real? (n : Numeral) : Option Number :=
  n.magnitude?.map fun f => .real (if n.negative then -f else f).toBits

/-- The numeral as a word, if it is written as an integer that fits one. -/
def word? (n : Numeral) : Option Number :=
  match n.fraction, n.exponent with
  | none, none =>
    let value := digitsValue n.whole
    if n.negative then
      if 0 < value ∧ value ≤ 0x8000000000000000 then some (.negative (Int64.ofInt (-value)))
      else none
    else if value ≤ largestWord then some (.natural (UInt64.ofNat value))
    else none
  | _, _ => none

/-- The number that a numeral stands for. -/
def number? (n : Numeral) : Option Number :=
  match n.word? with
  | some word => some word
  | none => n.real?

end Numeral

end Rendition.Json

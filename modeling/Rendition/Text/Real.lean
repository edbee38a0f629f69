import Rendition.Text.Case
import Rendition.Text.Decimal

/-!
# Rendition.Text.Real

Reading a real number from decimal digits, with or without a sign, a point and an exponent: the
double nearest to it. Infinity and the value that is no number have names, in which case does not
matter.
-/

namespace Rendition.Text

/-- Whether a text has a minus sign in front, and what follows its sign if it has one. -/
def cutSign : List Char → Bool × List Char
  | '-' :: rest => (true, rest)
  | '+' :: rest => (false, rest)
  | s => (false, s)

/-- The exponent that is all of a text; zero, if there is none. -/
def exponent? : List Char → Option Int
  | [] => some 0
  | mark :: rest =>
    let (negative, digits) := cutSign rest
    if mark ≠ 'e' ∧ mark ≠ 'E' then none
    else
      (readNat? (String.ofList digits)).map fun n => if negative then -(n : Int) else n

/-- The power of ten from which on all numbers are too large for a double, and below the negative of
which all are too small. -/
def outermostPower : Int := 400

/-- The double nearest to a number times a power of ten. -/
def scaledReal (n : Nat) (power : Int) : Float :=
  if n = 0 ∨ power + (Nat.toDigits 10 n).length < -outermostPower then 0
  else if outermostPower < power then 1 / 0
  else .ofScientific n (power < 0) power.natAbs

/-- The number that a text without a sign spells in digits. -/
def magnitude? (s : List Char) : Option Float := do
  let whole := s.takeWhile isDigit
  let (fraction, rest) :=
    match s.drop whole.length with
    | '.' :: rest => (rest.takeWhile isDigit, rest.dropWhile isDigit)
    | rest => ([], rest)
  if whole.isEmpty && fraction.isEmpty then none
  else
    let power ← exponent? rest
    some (scaledReal (digitsValue (whole ++ fraction)) (power - fraction.length))

/-- The number that a text without a sign names. -/
def named? (s : String) : Option Float :=
  match lower s with
  | "inf" | "infinity" => some (1 / 0)
  | "nan" => some (0 / 0)
  | _ => none

/-- The real number that a text spells. -/
def readReal? (s : String) : Option Float :=
  let (negative, s) := cutSign s.toList
  (named? (String.ofList s) <|> magnitude? s).map fun f => if negative then -f else f

end Rendition.Text

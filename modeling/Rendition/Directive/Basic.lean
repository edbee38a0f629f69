import Rendition.Error
import Rendition.Text.Decimal

/-!
# Rendition.Directive.Basic

Directives: the suffixes of a requested file name that say what to do with its source. The first
character of a token selects the operation and the rest holds its numbers:

* `r<h>[x<w>]` resizes to `h` rows and `w` columns, to a square without `w`;
* `o<h>x<w>[p|m<dy>][p|m<dx>]` keeps `h` rows and `w` columns, the first of which are `dy` and `dx`
  away from the corner, to the left or above after `m`;
* `q<n>` sets the quality of the encoder.

A token of any other kind is unknown, and one of these kinds that lacks a number it needs is
malformed; neither does anything, and both are kept as they are written for a report. A number ends
at the first character that is no digit, and what follows the last number of a directive is ignored.
Numbers saturate at the largest word of 32 bits.
-/

namespace Rendition

open Text

/-- What a token asks for. -/
inductive Directive where
  /-- Resample every frame to that many rows and columns. -/
  | resize (height width : UInt32)
  /-- Keep that many rows and columns, from the given distance below and to the right of the
  corner. -/
  | crop (height width : UInt32) (dy dx : Int64)
  /-- Encode with that quality. -/
  | quality (value : UInt32)
  deriving DecidableEq, Repr

/-- The operation that a token selects. -/
inductive Directive.Kind where
  | resize
  | crop
  | quality
  | unknown
  deriving DecidableEq, Repr

/-- Why a token of a known kind is no directive. -/
inductive DirectiveFault where
  /-- A resize without a height. -/
  | noHeight (token : String)
  /-- A crop without the `x` between height and width. -/
  | noSeparator (token : String)
  /-- A crop that lacks its height or its width. -/
  | noSize (token : String)
  /-- A quality without a value. -/
  | noQuality (token : String)
  deriving DecidableEq, Repr

/-- The malformed token. -/
def DirectiveFault.token : DirectiveFault → String
  | noHeight token | noSeparator token | noSize token | noQuality token => token

/-- The error that reports a malformed token. -/
def DirectiveFault.toError : DirectiveFault → Error
  | noHeight token => .malformedDirective ("resize '" ++ token ++ "' has no height")
  | noSeparator token =>
    .malformedDirective ("offset '" ++ token ++ "' is missing the 'x' separator")
  | noSize token => .malformedDirective ("offset '" ++ token ++ "' needs both height and width")
  | noQuality token => .malformedDirective ("quality '" ++ token ++ "' has no value")

/-- What a token reads as. -/
inductive Directive.Reading where
  /-- A directive. -/
  | known (directive : Directive)
  /-- A token of a known kind that lacks a number. -/
  | malformed (fault : DirectiveFault)
  /-- A token of no known kind, as it is written. -/
  | unknown (token : String)
  deriving DecidableEq, Repr

namespace Directive

/-- The kind of a token, by its first character. -/
def kindOf (token : String) : Kind :=
  match token.toList with
  | 'r' :: _ => .resize
  | 'o' :: _ => .crop
  | 'q' :: _ => .quality
  | _ => .unknown

/-! ### Numbers -/

/-- The largest number a field can hold. -/
def fieldLimit : Nat := UInt32.size - 1

/-- The number that digits spell, or the largest one if that is less. -/
def fieldValue (digits : List Char) : Nat :=
  digits.foldl (fun n c => min fieldLimit (10 * n + digitValue c)) 0

/-- The number at the start of a text, if there is one, and what follows it. -/
def scanNumber (s : List Char) : Option UInt32 × List Char :=
  match s.takeWhile isDigit with
  | [] => (none, s)
  | digits => (some (UInt32.ofNat (fieldValue digits)), s.dropWhile isDigit)

/-- A number with its sign as a word of 64 bits, which has room for it. -/
def signedField (negative : Bool) (n : UInt32) : Int64 :=
  Int64.ofInt (if negative then -n.toNat else n.toNat)

/-- The distance at the start of a text, which is written `p` or `m` and a number, and what follows
it. Digits without a letter are a distance to the right or below. A letter without a number is no
distance and stays. -/
def scanDistance (s : List Char) : Option Int64 × List Char :=
  let (negative, digits) :=
    match s with
    | 'p' :: rest => (false, rest)
    | 'm' :: rest => (true, rest)
    | _ => (false, s)
  match scanNumber digits with
  | (some n, rest) => (some (signedField negative n), rest)
  | (none, _) => (none, s)

/-! ### Tokens -/

/-- Reads the body of a resize. -/
def parseResize (token : String) (body : List Char) : Reading :=
  match scanNumber body with
  | (none, _) => .malformed (.noHeight token)
  | (some height, 'x' :: rest) => .known (.resize height ((scanNumber rest).1.getD height))
  | (some height, _) => .known (.resize height height)

/-- Reads the body of a crop. A missing separator is reported before a missing number. -/
def parseCrop (token : String) (body : List Char) : Reading :=
  match scanNumber body with
  | (height?, 'x' :: rest) =>
    match height?, scanNumber rest with
    | some height, (some width, rest) =>
      let (dy, rest) := scanDistance rest
      let (dx, _) := scanDistance rest
      .known (.crop height width (dy.getD 0) (dx.getD 0))
    | _, _ => .malformed (.noSize token)
  | _ => .malformed (.noSeparator token)

/-- Reads the body of a quality. -/
def parseQuality (token : String) (body : List Char) : Reading :=
  match scanNumber body with
  | (some q, _) => .known (.quality q)
  | (none, _) => .malformed (.noQuality token)

/-- Reads a token. -/
def parse (token : String) : Reading :=
  let body := token.toList.drop 1
  match kindOf token with
  | .resize => parseResize token body
  | .crop => parseCrop token body
  | .quality => parseQuality token body
  | .unknown => .unknown token

/-- The directive that a reading is, if it is one. -/
def Reading.directive? : Reading → Option Directive
  | .known d => some d
  | .malformed _ | .unknown _ => none

/-- Does a token read as a directive? -/
def isWellFormed (token : String) : Bool :=
  (parse token).directive?.isSome

example : parse "o10x20m3p4z" = .known (.crop 10 20 (-3) 4) := by decide

end Directive

end Rendition

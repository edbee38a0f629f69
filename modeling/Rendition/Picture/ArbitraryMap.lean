import Rendition.Picture.Netpbm
import Rendition.Text.Blank
import Rendition.Text.Decimal
import Rendition.Text.Pieces

/-!
# Rendition.Picture.ArbitraryMap

The format `P7` of the Netpbm family. Its header has a line for each fact: the size, the number of
samples of a pixel, the largest value of a sample, and what the samples are. Samples are bytes, or
two bytes if one is not enough.
-/

namespace Rendition.Picture.ArbitraryMap

open Netpbm Text

/-! ### Headers -/

/-- What the lines of a header say so far. -/
structure Header where
  width : Option Nat := none
  height : Option Nat := none
  depth : Option Nat := none
  most : Option Nat := none
  /-- What the samples are. Several lines are one text. -/
  content : Option String := none

/-- A number that a line gives. -/
def number? (rest : String) : Option Nat := do
  let digits := match (trimBlanks rest).toList with
    | '+' :: digits => digits
    | digits => digits
  let n ← readNat? (String.ofList digits)
  if n < UInt32.size then some n else none

/-- A fact with the number that a line gives, unless it has one already. -/
def once? (fact : Option Nat) (rest : String) : Option (Option Nat) :=
  match fact with
  | some _ => none
  | none => (number? rest).map some

/-- The header with a line read. -/
def Header.add? (h : Header) (word rest : String) : Option Header :=
  match word with
  | "WIDTH" => (once? h.width rest).map fun width => { h with width }
  | "HEIGHT" => (once? h.height rest).map fun height => { h with height }
  | "DEPTH" => (once? h.depth rest).map fun depth => { h with depth }
  | "MAXVAL" => (once? h.most rest).map fun most => { h with most }
  | "TUPLTYPE" =>
    let text := trimBlanks rest
    some { h with content := some ((h.content.map (· ++ " ")).getD "" ++ text) }
  | _ => none

/-- The bytes of a line and those that follow it. -/
def cutLine (bytes : List UInt8) : List UInt8 × List UInt8 :=
  (bytes.takeWhile (· ≠ 0x0A), (bytes.dropWhile (· ≠ 0x0A)).drop 1)

/-- The first word of a line and what follows it. -/
def cutWord (line : String) : String × String :=
  (String.ofList (line.toList.takeWhile (!isBlank ·)),
    String.ofList (line.toList.dropWhile (!isBlank ·)))

/-- Reads lines up to the one that ends the header, within a number of steps. -/
def readLines : (steps : Nat) → Header → List UInt8 → Option (Header × List UInt8)
  | 0, _, _ | _, _, [] => none
  | steps + 1, h, bytes =>
    let (line, rest) := cutLine bytes
    if line.head? = some 0x23 then readLines steps h rest
    else if line.any (0x80 ≤ ·) then none
    else do
      let (word, value) := cutWord (← String.fromUTF8? ⟨line.toArray⟩)
      if word = "ENDHDR" then some (h, rest)
      else readLines steps (← h.add? word value) rest

/-! ### Maps -/

/-- What the samples are, with the number of them in a pixel and the largest value that one may
have. -/
def contents : List (String × Nat × Nat) :=
  [("BLACKANDWHITE", 1, 1), ("BLACKANDWHITE_ALPHA", 2, 1), ("GRAYSCALE", 1, 65535),
    ("GRAYSCALE_ALPHA", 2, 65535), ("RGB", 3, 65535), ("RGB_ALPHA", 4, 65535)]

/-- Do the facts of a header agree? Samples of which nothing is said are what their number
suggests, and have one byte. -/
def agree (depth most : Nat) : Option String → Bool
  | none => 1 ≤ depth && depth ≤ 4 && most ≤ 255
  | some content =>
    (contents.lookup content).any fun (samples, limit) => depth = samples && most ≤ limit

/-- The color of pixels of so many samples. -/
def colorOf (depth : Nat) (wide : Bool) : Color :=
  match depth, wide with
  | 1, false => .gray
  | 1, true => .gray16
  | 2, false => .grayAlpha
  | 2, true => .grayAlpha16
  | 3, false => .rgb
  | 3, true => .rgb16
  | _, false => .rgba
  | _, true => .rgba16

/-- A pixel of its samples. -/
def pixelOf : List UInt8 → Pixel
  | [v] => ⟨v, v, v, 255⟩
  | [v, a] => ⟨v, v, v, a⟩
  | [r, g, b] => ⟨r, g, b, 255⟩
  | [r, g, b, a] => ⟨r, g, b, a⟩
  | _ => default

/-- A map: its pixels and what they are made of. -/
def decode? (bytes : ByteArray) : Option (Color × Canvas) := do
  let (h, rest) ← match bytes.data.toList with
    | 0x50 :: 0x37 :: 0x0A :: rest => readLines rest.length {} rest
    | _ => none
  let (width, height, depth, most) := (← h.width, ← h.height, ← h.depth, ← h.most)
  let area := width * height
  if area = 0 ∨ largestArea < area ∨ most = 0 ∨ !agree depth most h.content then none
  else
    let wide := decide (255 < most)
    let raw ← if wide then doubleBytes? (area * depth) rest else singleBytes? (area * depth) rest
    -- Of two values there are no others.
    if most = 1 ∧ h.content.any (opensWith "BLACKANDWHITE") ∧ raw.any (1 < ·) then none
    else
      let full := if wide then 65535 else 255
      let samples := (raw.map fun n =>
        let n := scaled most full n
        if wide then narrowed n else UInt8.ofNat n).toArray
      let pixels := Array.ofFn fun i : Fin area =>
        pixelOf ((List.range depth).map fun k => samples.getD (depth * i + k) 0)
      some (colorOf depth wide, .ofPixels width height pixels)

end Rendition.Picture.ArbitraryMap

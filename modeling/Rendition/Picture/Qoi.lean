import Rendition.Picture.Canvas
import Rendition.Picture.Fields

/-!
# Rendition.Picture.Qoi

Reading pictures in QOI. A pixel is the one before it again, a small step away from it, one that was
seen not long ago, or given in full. Pixels that were seen are kept in 64 places, and each goes to
the place that is computed from its channels.
-/

namespace Rendition.Picture.Qoi

/-- What the pixels so far leave behind. -/
structure State where
  /-- The pixel before. -/
  last : Pixel
  /-- The pixels that were seen, by place. -/
  seen : Array Pixel
  /-- The pixels so far. -/
  pixels : Array Pixel

/-- The number of places. -/
def placeCount : Nat := 64

/-- The state before the first pixel. -/
def State.initial : State :=
  ⟨⟨0, 0, 0, 255⟩, Array.replicate placeCount ⟨0, 0, 0, 0⟩, #[]⟩

/-- The place of a pixel. -/
def placeOf (p : Pixel) : Nat :=
  (3 * p.red.toNat + 5 * p.green.toNat + 7 * p.blue.toNat + 11 * p.alpha.toNat) % placeCount

/-- The state behind a pixel. -/
def State.add (s : State) (p : Pixel) : State :=
  ⟨p, s.seen.setIfInBounds (placeOf p) p, s.pixels.push p⟩

/-- The state behind a number of repeated pixels. -/
def State.repeating (s : State) (count : Nat) : State :=
  { s with pixels := s.pixels ++ Array.replicate count s.last }

/-- The state behind a pixel that was seen. Without a channel for opacity, pixels are opaque. -/
def State.recalling (s : State) (opacity : Bool) (place : Nat) : State :=
  let p := s.seen.getD place default
  s.add (if opacity then p else { p with alpha := 255 })

/-- A pixel some steps away from another one. Steps go around at both ends. -/
def moved (p : Pixel) (red green blue : UInt8) : Pixel :=
  { p with red := p.red + red, green := p.green + green, blue := p.blue + blue }

/-- A field of two bits of a byte, from a place on. -/
def pair (b : UInt8) (place : UInt8) : UInt8 := (b >>> place) &&& 3

/-- The state behind what the bytes at the start stand for, and the bytes that follow. `opacity` is
whether pixels have a channel for it. -/
def step? (opacity : Bool) (s : State) : List UInt8 → Option (State × List UInt8)
  | 0xFE :: red :: green :: blue :: rest =>
    some (s.add { s.last with red, green, blue }, rest)
  | 0xFF :: red :: green :: blue :: alpha :: rest =>
    if opacity then some (s.add ⟨red, green, blue, alpha⟩, rest) else none
  | b :: rest =>
    match (b >>> 6).toNat with
    | 0 => some (s.recalling opacity b.toNat, rest)
    | 1 => some (s.add (moved s.last (pair b 4 - 2) (pair b 2 - 2) (pair b 0 - 2)), rest)
    | 2 =>
      match rest with
      | [] => none
      | c :: rest =>
        let green := (b &&& 0x3F) - 32
        some (s.add (moved s.last (green + (c >>> 4) - 8) green (green + (c &&& 0xF) - 8)), rest)
    | _ => if b < 0xFE then some (s.repeating ((b &&& 0x3F).toNat + 1), rest) else none
  | [] => none

/-- Reads pixels up to a number of them, within a number of steps. -/
def readPixels (opacity : Bool) (area : Nat) :
    (steps : Nat) → State → List UInt8 → Option (Array Pixel × List UInt8)
  | 0, _, _ => none
  | steps + 1, s, bytes =>
    -- A repetition may go beyond the last pixel.
    if area ≤ s.pixels.size then some (s.pixels.take area, bytes)
    else do
      let (s, bytes) ← step? opacity s bytes
      readPixels opacity area steps s bytes

/-- The bytes that end a picture. -/
def padding : List UInt8 := [0, 0, 0, 0, 0, 0, 0, 1]

/-- The bytes in front of the size. -/
def signatureLength : Nat := 4

/-- A picture: its pixels and what they are made of. -/
def decode? (bytes : ByteArray) : Option (Color × Canvas) := do
  let (_, rest) ← run? signatureLength bytes.data.toList
  let (width, rest) ← big? 4 rest
  let (height, rest) ← big? 4 rest
  let (channels, rest) ← big? 1 rest
  let (space, rest) ← big? 1 rest
  let area := width * height
  if area = 0 ∨ largestArea < area ∨ (channels ≠ 3 ∧ channels ≠ 4) ∨ 1 < space then none
  else
    let opacity := decide (channels = 4)
    let (pixels, rest) ← readPixels opacity area (area + 1) .initial rest
    if padding.isPrefixOf rest then
      some (if opacity then .rgba else .rgb, .ofPixels width height pixels)
    else none

end Rendition.Picture.Qoi

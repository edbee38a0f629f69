import Rendition.Picture.Canvas
import Rendition.Picture.Fields

/-!
# Rendition.Picture.Jpeg

Reading what stands in front of the pixels of a JPEG file: segments, each behind a marker, of which
one gives the size and the number of channels and others give quantisation tables. The pixels
themselves are a lossy approximation and are not read.
-/

namespace Rendition.Picture.Jpeg

/-- What the segments so far say. -/
structure Header where
  /-- The width, the height and the number of channels. -/
  frame? : Option (Nat × Nat × Nat)
  /-- The quantisation tables, in the order of the file. -/
  tables : List (List Nat)

/-- Does a marker start a frame, one that is sequential or progressive and coded by Huffman's
method? -/
def startsFrame (marker : UInt8) : Bool :=
  0xC0 ≤ marker && marker ≤ 0xC2

/-- Does a marker start a frame of another kind? -/
def startsOtherFrame (marker : UInt8) : Bool :=
  0xC3 ≤ marker && marker ≤ 0xCF && marker ≠ 0xC4 && marker ≠ 0xC8 && marker ≠ 0xCC

/-- The frame that a segment gives. -/
def frameOf? (data : List UInt8) : Option (Nat × Nat × Nat) := do
  let (precision, rest) ← big? 1 data
  let (height, rest) ← big? 2 rest
  let (width, rest) ← big? 2 rest
  let (channels, rest) ← big? 1 rest
  if precision = 8 ∧ 0 < width ∧ 0 < height ∧ channels ∈ [1, 3, 4] ∧ rest.length = 3 * channels
  then some (width, height, channels)
  else none

/-- The entries of a quantisation table. -/
def tableSize : Nat := 64

/-- Entries of one byte or of two. -/
def entries (wide : Bool) : List UInt8 → List Nat
  | high :: low :: rest =>
    if wide then (256 * high.toNat + low.toNat) :: entries wide rest
    else high.toNat :: entries wide (low :: rest)
  | [b] => if wide then [] else [b.toNat]
  | [] => []

/-- The quantisation tables of a segment, within a number of steps. -/
def tablesOf? : (steps : Nat) → List UInt8 → Option (List (List Nat))
  | _, [] => some []
  | 0, _ => none
  | steps + 1, kind :: bytes => do
    let wide := decide (16 ≤ kind.toNat)
    let (stored, rest) ← run? (if wide then 2 * tableSize else tableSize) bytes
    (entries wide stored :: ·) <$> tablesOf? steps rest

/-- Reads segments up to the one in front of the pixels, within a number of steps. -/
def readSegments : (steps : Nat) → Header → List UInt8 → Option Header
  | steps + 1, h, 0xFF :: marker :: bytes =>
    -- A marker may have any number of fill bytes in front.
    if marker = 0xFF then readSegments steps h (marker :: bytes)
    else if startsOtherFrame marker then none
    else do
      let (length, rest) ← big? 2 bytes
      if length < 2 then none
      else
        let (data, rest) ← run? (length - 2) rest
        if startsFrame marker then readSegments steps { h with frame? := ← frameOf? data } rest
        else if marker = 0xDB then
          let tables ← tablesOf? data.length data
          readSegments steps { h with tables := h.tables ++ tables } rest
        else if marker = 0xDA then some h
        else readSegments steps h rest
  | _, _, _ => none

/-- What stands in front of the pixels. -/
def Header.parse? : List UInt8 → Option Header
  | 0xFF :: 0xD8 :: rest => readSegments rest.length ⟨none, []⟩ rest
  | _ => none

/-- A picture: its size and what its pixels are made of. -/
def decode? (bytes : ByteArray) : Option (Color × Canvas) := do
  let h ← Header.parse? bytes.data.toList
  let (width, height, channels) ← h.frame?
  some (if channels = 1 then .gray else .rgb,
    .unknown (UInt32.ofNat width) (UInt32.ofNat height))

/-- The first quantisation table of a file. -/
def firstTable? (bytes : ByteArray) : Option (List Nat) :=
  (Header.parse? bytes.data.toList).bind (·.tables.head?)

end Rendition.Picture.Jpeg

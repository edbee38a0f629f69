import Rendition.Picture.Canvas
import Rendition.Picture.Fields

/-!
# Rendition.Picture.Netpbm

The formats of the Netpbm family from `P1` to `P6`: bitmaps, gray maps and pixel maps, with their
samples spelled in ASCII or as bytes. A header gives the size and, except for bitmaps, the largest
value of a sample; comments run from `#` to the end of their line. Samples are scaled so that the
largest value fills their byte, or their two bytes if one is not enough.
-/

namespace Rendition.Picture.Netpbm

/-- Is `b` a blank of ASCII? -/
def isBlank (b : UInt8) : Bool :=
  b == 0x20 || (0x09 ≤ b && b ≤ 0x0d)

/-- Is `b` the end of a line? -/
def isLineEnd (b : UInt8) : Bool :=
  b == 0x0a || b == 0x0d

/-! ### Headers -/

/-- The next word of a header and what follows the blank that ends it. A comment is skipped
wherever it stands, with the end of its line, and so may part a word. -/
def headerWord (word : List UInt8) (comment : Bool) : List UInt8 → Option (List UInt8 × List UInt8)
  | [] => if word.isEmpty then none else some (word.reverse, [])
  | b :: rest =>
    if comment then headerWord word (!isLineEnd b) rest
    else if b == 0x23 then headerWord word true rest
    else if isBlank b then
      if word.isEmpty then headerWord word false rest else some (word.reverse, rest)
    else headerWord (b :: word) false rest

/-- The number that digits of ASCII spell, with or without a plus in front. -/
def number? (word : List UInt8) : Option Nat :=
  let digits := match word with
    | 0x2b :: rest => rest
    | _ => word
  if digits.isEmpty || digits.any (fun b => b < 0x30 || 0x39 < b) then none
  else some (digits.foldl (fun n b => 10 * n + (b.toNat - 0x30)) 0)

/-- The next number of a header and what follows it. -/
def headerNumber? (bytes : List UInt8) : Option (Nat × List UInt8) := do
  let (word, rest) ← headerWord [] false bytes
  let n ← number? word
  if n < UInt32.size then some (n, rest) else none

/-! ### Samples -/

/-- How the samples of a map are written, and of what. -/
structure Layout where
  /-- Is a sample one of two values? -/
  bits : Bool
  /-- The samples of a pixel. -/
  channels : Nat
  /-- Are samples spelled in ASCII? -/
  spelled : Bool

/-- The layout that the second byte of a map selects. -/
def layout? (b : UInt8) : Option Layout :=
  match b with
  | 0x31 => some ⟨true, 1, true⟩
  | 0x32 => some ⟨false, 1, true⟩
  | 0x33 => some ⟨false, 3, true⟩
  | 0x34 => some ⟨true, 1, false⟩
  | 0x35 => some ⟨false, 1, false⟩
  | 0x36 => some ⟨false, 3, false⟩
  | _ => none

/-- `count` spelled bits, which need no blank between them; 1 is black. -/
def spelledBits? : (count : Nat) → List UInt8 → Option (List Nat)
  | 0, _ => some []
  | _ + 1, [] => none
  | count + 1, b :: rest =>
    if isBlank b then spelledBits? (count + 1) rest
    else if b == 0x30 then (255 :: ·) <$> spelledBits? count rest
    else if b == 0x31 then (0 :: ·) <$> spelledBits? count rest
    else none

/-- `count` spelled numbers, each less than `bound`. -/
def spelledNumbers? (bound : Nat) : (count : Nat) → List UInt8 → Option (List Nat)
  | 0, _ => some []
  | count + 1, bytes => do
    let start := bytes.dropWhile isBlank
    let n ← number? (start.takeWhile (!isBlank ·))
    if n < bound then (n :: ·) <$> spelledNumbers? bound count (start.dropWhile (!isBlank ·))
    else none

/-- Rows of bits, eight in a byte from the highest on; each row fills whole bytes. -/
def packedBits? (width height : Nat) (bytes : List UInt8) : Option (List Nat) :=
  let rowBytes := (width + 7) / 8
  if bytes.length < rowBytes * height then none
  else
    let packed := bytes.toArray
    some <| (List.range height).flatMap fun row =>
      (List.range width).map fun column =>
        let b := (packed.getD (row * rowBytes + column / 8) 0).toNat
        if b.testBit (7 - column % 8) then 0 else 255

/-- `count` numbers of one byte. -/
def singleBytes? (count : Nat) (bytes : List UInt8) : Option (List Nat) :=
  if bytes.length < count then none else some ((bytes.take count).map (·.toNat))

/-- `count` numbers of two bytes, the higher one first. -/
def doubleBytes? : (count : Nat) → List UInt8 → Option (List Nat)
  | 0, _ => some []
  | count + 1, high :: low :: rest =>
    ((256 * high.toNat + low.toNat) :: ·) <$> doubleBytes? count rest
  | _ + 1, _ => none

/-- A sample scaled from `most` to the whole of `full`, in single precision; a half is rounded
up. -/
def scaled (most full sample : Nat) : Nat :=
  if most = full then sample
  else
    let factor := Float32.ofNat full / Float32.ofNat most
    min full ((Float32.ofNat sample * factor).round.toUInt32.toNat)

/-- A pixel of the samples at an index. -/
def pixelOf (channels : Nat) (samples : Array UInt8) (index : Nat) : Pixel :=
  let sample := fun channel => samples.getD (channels * index + channel) 0
  if channels = 1 then ⟨sample 0, sample 0, sample 0, 255⟩ else ⟨sample 0, sample 1, sample 2, 255⟩

/-! ### Maps -/

/-- A map: its pixels and what they are made of. -/
def decode? (bytes : ByteArray) : Option (Color × Canvas) := do
  let (layout, rest) ← match bytes.data.toList with
    | 0x50 :: b :: rest => (·, rest) <$> layout? b
    | _ => none
  let (width, rest) ← headerNumber? rest
  let (height, rest) ← headerNumber? rest
  let (most, rest) ← if layout.bits then some (1, rest) else headerNumber? rest
  if width * height = 0 || most = 0 || 65535 < most || largestArea < width * height then none
  else
    let count := width * height * layout.channels
    let wide := decide (255 < most)
    let samples ←
      if layout.bits then
        if layout.spelled then spelledBits? count rest else packedBits? width height rest
      else
        let full := if wide then 65535 else 255
        let raw ←
          if layout.spelled then spelledNumbers? (full + 1) count rest
          else if wide then doubleBytes? count rest
          else singleBytes? count rest
        some (raw.map (scaled most full))
    let narrow := (samples.map fun s => if wide then narrowed s else UInt8.ofNat s).toArray
    let color := match layout.channels == 1, wide with
      | true, false => Color.gray
      | true, true => .gray16
      | false, false => .rgb
      | false, true => .rgb16
    some (color,
      { width := UInt32.ofNat width
        height := UInt32.ofNat height
        pixel? := some fun column row => pixelOf layout.channels narrow (row * width + column) })

end Rendition.Picture.Netpbm

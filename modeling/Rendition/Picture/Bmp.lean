import Rendition.Picture.Canvas
import Rendition.Picture.Fields

/-!
# Rendition.Picture.Bmp

Reading pictures in BMP that are not compressed. A file has two headers, of which the second one
comes in several sizes, perhaps masks that say which bits of a pixel belong to which channel,
perhaps a table of colours, and rows of pixels that fill a multiple of four bytes each, mostly from
the lowest row on. All numbers have their lowest byte first.
-/

namespace Rendition.Picture.Bmp

/-! ### Headers -/

/-- What a pixel is stored as. -/
inductive Storage where
  /-- A place in the table of colours, of so many bits. -/
  | indexed (bits : Nat)
  /-- Three bytes, blue first. -/
  | bytes
  /-- A number of so many bits in which each channel has its place. -/
  | masked (bits : Nat)

/-- The bits of a pixel that make up a channel. -/
structure Mask where
  shift : Nat
  length : Nat

/-- What the headers say. -/
structure Header where
  width : Nat
  height : Nat
  /-- Does the highest row come first? -/
  topDown : Bool
  storage : Storage
  /-- The masks of red, green, blue and opacity. -/
  masks : List Mask
  /-- The entries of the table of colours. -/
  colors : Nat
  /-- The bytes of an entry. -/
  colorBytes : Nat

/-- The longest side of a picture. -/
def longestSide : Nat := 65535

/-- The number of zero bits below the lowest other one among so many, starting at a place. -/
def lowZeros (n : Nat) : (count : Nat) → (place : Nat) → Nat
  | 0, place => place
  | count + 1, place => if n.testBit place then place else lowZeros n count (place + 1)

/-- The bits of a mask within a pixel of so many bits. They stand side by side. Of more than eight
only the highest eight count. -/
def Mask.ofNat? (bits mask : Nat) : Option Mask :=
  if mask = 0 then some ⟨0, 0⟩
  else
    let shift := lowZeros mask bits 0
    let run := mask >>> shift
    let length := lowZeros (2 * UInt32.size - 1 - run) bits 0
    if run ≠ 1 <<< length - 1 ∨ bits < shift + length then none
    else if 8 < length then some ⟨shift + length - 8, 8⟩
    else some ⟨shift, length⟩

/-- The channel that a mask selects, widened so that its largest value fills a byte. -/
def Mask.read (m : Mask) (pixel : Nat) : UInt8 :=
  let n := pixel >>> m.shift % 1 <<< m.length
  match m.length with
  | 0 => 0
  | 7 => UInt8.ofNat (2 * n + n / 64)
  | 8 => UInt8.ofNat n
  | length =>
    let most := 1 <<< length - 1
    UInt8.ofNat ((255 * n + most / 2) / most)

/-- The masks of pixels of 16 or 32 bits that come without any. -/
def usualMasks (bits : Nat) : List Mask :=
  if bits = 16 then [⟨10, 5⟩, ⟨5, 5⟩, ⟨0, 5⟩, ⟨0, 0⟩] else [⟨16, 8⟩, ⟨8, 8⟩, ⟨0, 8⟩, ⟨0, 0⟩]

/-- The storage of pixels of so many bits, if they come without masks. -/
def plainStorage? : Nat → Option Storage
  | 1 => some (.indexed 1)
  | 2 => some (.indexed 2)
  | 4 => some (.indexed 4)
  | 8 => some (.indexed 8)
  | 16 => some (.masked 16)
  | 24 => some .bytes
  | 32 => some (.masked 32)
  | _ => none

/-- The entries of a table of colours, given the number that the header names. -/
def colorCount? (storage : Storage) (named : Nat) : Option Nat :=
  match storage with
  | .indexed bits =>
    if named = 0 then some (1 <<< bits) else if named ≤ 1 <<< bits then some named else none
  | _ => some 0

/-- A side that may have a sign: its length, and whether the sign is negative. -/
def signed (n : Nat) : Nat × Bool :=
  if n < 0x80000000 then (n, false) else (UInt32.size - n, true)

/-- The second header in its smallest form, and what follows it. -/
def smallHeader? (bytes : List UInt8) : Option (Header × List UInt8) := do
  let (width, rest) ← little? 2 bytes
  let (height, rest) ← little? 2 rest
  let (planes, rest) ← little? 2 rest
  let (bits, rest) ← little? 2 rest
  if planes ≠ 1 ∨ bits ∉ [1, 4, 8, 24] then none
  else
    let storage ← plainStorage? bits
    some ({ width, height, topDown := false, storage, masks := [],
            colors := ← colorCount? storage 0, colorBytes := 3 }, rest)

/-- A number of masks. -/
def masks? (bits : Nat) : (count : Nat) → List UInt8 → Option (List Mask)
  | 0, _ => some []
  | count + 1, bytes => do
    let (mask, rest) ← little? 4 bytes
    some ((← Mask.ofNat? bits mask) :: (← masks? bits count rest))

/-- The second header in a larger form, with its size, and what follows it. -/
def largeHeader? (size : Nat) (bytes : List UInt8) : Option (Header × List UInt8) := do
  let (width, rest) ← little? 4 bytes
  let (height, rest) ← little? 4 rest
  let (planes, rest) ← little? 2 rest
  let (bits, rest) ← little? 2 rest
  let (compression, rest) ← little? 4 rest
  let (_, rest) ← run? 12 rest
  let (named, rest) ← little? 4 rest
  let (_, rest) ← run? 4 rest
  -- What makes the header larger than the common one comes next.
  let (_, behind) ← run? (size - 40) rest
  let (height, topDown) := signed height
  if planes ≠ 1 ∨ (signed width).2 then none
  else
    match compression with
    | 0 =>
      let storage ← plainStorage? bits
      some ({ width, height, topDown, storage, masks := usualMasks bits,
              colors := ← colorCount? storage named, colorBytes := 4 }, behind)
    | 3 =>
      if bits ≠ 16 ∧ bits ≠ 32 then none
      else
        let given ← masks? bits (if size < 56 then 3 else 4) rest
        -- Each colour needs a bit at least.
        if (given.take 3).any (·.length = 0) then none
        else
          some ({ width, height, topDown, storage := .masked bits,
                  masks := given ++ (if size < 56 then [⟨0, 0⟩] else []), colors := 0,
                  colorBytes := 4 }, if size = 40 then rest.drop 12 else behind)
    | _ => none

/-- The sizes of the second header in its larger forms. -/
def largeSizes : List Nat := [40, 52, 56, 108, 124]

/-- The headers, what follows them, and where the pixels start. -/
def Header.parse? (bytes : List UInt8) : Option ((Header × List UInt8) × Nat) := do
  let (_, rest) ← run? 10 bytes
  let (start, rest) ← little? 4 rest
  let (size, rest) ← little? 4 rest
  let (h, rest) ←
    if size = 12 then smallHeader? rest
    else if size ∈ largeSizes then largeHeader? size rest
    else none
  if h.width = 0 ∨ h.height = 0 ∨ longestSide < h.width ∨ longestSide < h.height then none
  else some ((h, rest), start)

/-! ### Pixels -/

/-- The bits of a pixel. -/
def Storage.bits : Storage → Nat
  | indexed bits | masked bits => bits
  | bytes => 24

/-- The bytes of a row. -/
def rowBytes (h : Header) : Nat :=
  (h.width * h.storage.bits + 31) / 32 * 4

/-- Has a pixel a channel for opacity? -/
def hasOpacity (h : Header) : Bool :=
  match h.storage with
  | .masked _ => h.masks[3]?.any (0 < ·.length)
  | _ => false

/-- The colour at a place of a table; black, if the table is shorter. -/
def colorAt (h : Header) (table : List UInt8) (place : Nat) : Pixel :=
  let part := fun k => table[h.colorBytes * place + k]?.getD 0
  ⟨part 2, part 1, part 0, 255⟩

/-- The pixel at a column of a row that starts at a place. -/
def pixelAt (h : Header) (table : List UInt8) (stored : Array UInt8) (start column : Nat) :
    Pixel :=
  let byte := fun k => stored.getD (start + k) 0
  match h.storage with
  | .indexed bits =>
    let place := column * bits
    colorAt h table ((byte (place / 8)).toNat >>> (8 - bits - place % 8) % 1 <<< bits)
  | .bytes => ⟨byte (3 * column + 2), byte (3 * column + 1), byte (3 * column), 255⟩
  | .masked bits =>
    let size := bits / 8
    let n := littleEndian ((List.range size).map fun k => byte (size * column + k))
    match h.masks with
    | [red, green, blue, alpha] =>
      ⟨red.read n, green.read n, blue.read n, if alpha.length = 0 then 255 else alpha.read n⟩
    | _ => default

/-- A picture: its pixels and what they are made of. -/
def decode? (bytes : ByteArray) : Option (Color × Canvas) := do
  let all := bytes.data.toList
  let ((h, rest), start) ← Header.parse? all
  let (table, _) ← run? (h.colors * h.colorBytes) rest
  let (stored, _) ← run? (rowBytes h * h.height) (all.drop start)
  if largestArea < h.width * h.height then none
  else
    let stored := stored.toArray
    some (if hasOpacity h then .rgba else .rgb,
      { width := UInt32.ofNat h.width
        height := UInt32.ofNat h.height
        pixel? := some fun column row =>
          let line := if h.topDown then row else h.height - 1 - row
          pixelAt h table stored (rowBytes h * line) column })

example : Mask.ofNat? 16 0x7C00 |>.any (fun m => m.shift = 10 ∧ m.length = 5) := by decide
example : (Mask.mk 0 5).read 3 = 25 ∧ (Mask.mk 0 6).read 1 = 4 ∧ (Mask.mk 0 4).read 15 = 255 := by
  decide

end Rendition.Picture.Bmp

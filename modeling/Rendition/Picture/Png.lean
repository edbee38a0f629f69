import Rendition.Picture.Canvas
import Rendition.Picture.Checksum
import Rendition.Picture.Deflate

/-!
# Rendition.Picture.Png

Reading pictures in PNG. A file is a row of chunks, each guarded by a check: a header, perhaps a
table of colours and a list of what is transparent, and the pixels, compressed. Pixels are predicted
from their neighbours, and only what remains to be added is stored. They come row after row, or in
seven passes over a finer and finer grid.

Pixels are widened to whole bytes, colours of a table are looked up, and what is transparent gets a
channel for opacity.
-/

namespace Rendition.Picture.Png

/-! ### Headers -/

/-- What a sample of a pixel is. -/
inductive Kind where
  | gray
  | rgb
  /-- A place in the table of colours. -/
  | indexed
  | grayAlpha
  | rgba
  deriving DecidableEq

/-- The samples of a pixel. -/
def Kind.samples : Kind → Nat
  | gray | indexed => 1
  | grayAlpha => 2
  | rgb => 3
  | rgba => 4

/-- The kind of a number, with the depths that its samples may have. -/
def Kind.ofNumber? : Nat → Option (Kind × List Nat)
  | 0 => some (gray, [1, 2, 4, 8, 16])
  | 2 => some (rgb, [8, 16])
  | 3 => some (indexed, [1, 2, 4, 8])
  | 4 => some (grayAlpha, [8, 16])
  | 6 => some (rgba, [8, 16])
  | _ => none

/-- What the header of a file says. -/
structure Header where
  width : Nat
  height : Nat
  /-- The bits of a sample. -/
  depth : Nat
  kind : Kind
  interlaced : Bool

/-- The sides of a picture are shorter than this. -/
def sideLimit : Nat := 0x80000000

/-- Reads a header. -/
def Header.parse? (data : List UInt8) : Option Header := do
  let (width, rest) ← big? 4 data
  let (height, rest) ← big? 4 rest
  if width = 0 ∨ height = 0 ∨ sideLimit ≤ width ∨ sideLimit ≤ height then none
  else
    match rest.map (·.toNat) with
    | [depth, kind, 0, 0, interlaced] =>
      let (kind, depths) ← Kind.ofNumber? kind
      if depth ∈ depths ∧ interlaced ≤ 1 then
        some { width, height, depth, kind, interlaced := interlaced = 1 }
      else none
    | _ => none

/-! ### Chunks -/

/-- What the chunks in front of the pixels and those of the pixels say. -/
structure File where
  header : Header
  /-- The table of colours. -/
  colors : List UInt8
  /-- What is transparent. -/
  transparent : Option (List UInt8)
  /-- The compressed pixels. -/
  pixels : List UInt8

/-- The name of a chunk. -/
def nameBytes (name : String) : List UInt8 :=
  name.toList.map fun c => c.toUInt8

/-- May a reader do without a chunk? -/
def isAncillary (name : List UInt8) : Bool :=
  name.head?.any fun b => b.toNat.testBit 5

/-- The data of a chunk whose length and name were read, whether its check fits, and what
follows. -/
def chunkData? (length : Nat) (name : List UInt8) (bytes : List UInt8) :
    Option ((List UInt8 × Bool) × List UInt8) := do
  let (data, rest) ← run? length bytes
  let (check, rest) ← big? 4 rest
  some ((data, (crc32 (name ++ data)).toNat = check), rest)

/-- What a chunk in front of the pixels says. -/
def File.add (f : File) (name data : List UInt8) : File :=
  if name = nameBytes "PLTE" then { f with colors := data }
  else if name = nameBytes "tRNS" then { f with transparent := some data }
  else f

/-- Reads chunks up to the one behind the pixels, of which only the head need be there, within a
number of steps. `started` is whether pixels came before. -/
def readChunks : (steps : Nat) → (started : Bool) → File → List UInt8 → Option File
  | 0, _, _, _ => none
  | steps + 1, started, f, bytes => do
    let (length, rest) ← big? 4 bytes
    let (name, rest) ← run? 4 rest
    if name = nameBytes "IDAT" then
      let ((data, intact), rest) ← chunkData? length name rest
      if intact then readChunks steps true { f with pixels := f.pixels ++ data } rest else none
    else if started then some f
    else if name = nameBytes "IEND" then none
    else
      let ((data, intact), rest) ← chunkData? length name rest
      if intact then readChunks steps false (f.add name data) rest
      else if isAncillary name then readChunks steps false f rest
      else none

/-- The bytes in front of the first chunk. -/
def signatureLength : Nat := 8

/-- The bytes of a header. -/
def headerLength : Nat := 13

/-- Reads the chunks of a file. -/
def File.parse? (bytes : List UInt8) : Option File := do
  let (_, rest) ← run? signatureLength bytes
  let (length, rest) ← big? 4 rest
  let (name, rest) ← run? 4 rest
  if length = headerLength ∧ name = nameBytes "IHDR" then
    let ((data, intact), rest) ← chunkData? length name rest
    if intact then readChunks rest.length false ⟨← Header.parse? data, [], none, []⟩ rest else none
  else none

/-! ### Rows -/

/-- The neighbour that is nearest to `left + above - corner`; of two that are equally near, the
first. -/
def nearest (left above corner : UInt8) : UInt8 :=
  let guess : Int := (left.toNat : Int) + above.toNat - corner.toNat
  let distance := fun b : UInt8 => (guess - b.toNat).natAbs
  if distance left ≤ distance above ∧ distance left ≤ distance corner then left
  else if distance above ≤ distance corner then above
  else corner

/-- What a rule makes of the neighbours of a byte. -/
def predicted? (rule : UInt8) (left above corner : UInt8) : Option UInt8 :=
  match rule with
  | 0 => some 0
  | 1 => some left
  | 2 => some above
  | 3 => some (UInt8.ofNat ((left.toNat + above.toNat) / 2))
  | 4 => some (nearest left above corner)
  | _ => none

/-- A row from what is stored of it. The neighbours to the left are `step` bytes away. -/
def row? (rule : UInt8) (step : Nat) (above : Array UInt8) (stored : List UInt8) :
    Option (Array UInt8) :=
  stored.foldlM (fun row b => do
    let at? := fun (a : Array UInt8) => if row.size < step then 0 else a.getD (row.size - step) 0
    let guess ← predicted? rule (at? row) (above.getD row.size 0) (at? above)
    some (row.push (b + guess))) #[]

/-- A number of rows of `width` bytes each, and what follows them. -/
def rows? (step width : Nat) :
    (count : Nat) → (above : Array UInt8) → List UInt8 → Option (List (Array UInt8) × List UInt8)
  | 0, _, bytes => some ([], bytes)
  | _ + 1, _, [] => none
  | count + 1, above, rule :: bytes => do
    let (stored, bytes) ← run? width bytes
    let row ← row? rule step above stored
    let (rows, bytes) ← rows? step width count row bytes
    some (row :: rows, bytes)

/-! ### Passes -/

/-- The pixels that come in one pass: every one of a grid. -/
structure Pass where
  firstColumn : Nat
  columnStep : Nat
  firstRow : Nat
  rowStep : Nat

/-- The passes of a picture. -/
def passes (interlaced : Bool) : List Pass :=
  if interlaced then
    [⟨0, 8, 0, 8⟩, ⟨4, 8, 0, 8⟩, ⟨0, 4, 4, 8⟩, ⟨2, 4, 0, 4⟩, ⟨0, 2, 2, 4⟩, ⟨1, 2, 0, 2⟩,
      ⟨0, 1, 1, 2⟩]
  else [⟨0, 1, 0, 1⟩]

/-- How many of `length` places come from `first` on in steps. -/
def placesFrom (first step length : Nat) : Nat :=
  (length + step - 1 - first) / step

/-- A sample of a row: its `index`-th run of `depth` bits, from the highest on. -/
def sample (depth : Nat) (row : Array UInt8) (index : Nat) : Nat :=
  match depth with
  | 16 => 256 * (row.getD (2 * index) 0).toNat + (row.getD (2 * index + 1) 0).toNat
  | 8 => (row.getD index 0).toNat
  | _ =>
    let place := index * depth
    (row.getD (place / 8) 0).toNat >>> (8 - depth - place % 8) % 1 <<< depth

/-- The samples of a picture, pixel after pixel, with those of a pass in their places. -/
def placePass (h : Header) (pass : Pass) (rows : List (Array UInt8)) (pixels : Array (List Nat)) :
    Array (List Nat) :=
  rows.zipIdx.foldl (fun pixels (row, j) =>
    (List.range (placesFrom pass.firstColumn pass.columnStep h.width)).foldl (fun pixels i =>
      let column := pass.firstColumn + i * pass.columnStep
      let line := pass.firstRow + j * pass.rowStep
      let samples := (List.range h.kind.samples).map fun k =>
        sample h.depth row (i * h.kind.samples + k)
      pixels.setIfInBounds (line * h.width + column) samples) pixels) pixels

/-- Reads the passes in order. -/
def readPasses (h : Header) :
    List Pass → List UInt8 → Array (List Nat) → Option (Array (List Nat))
  | [], _, pixels => some pixels
  | pass :: others, bytes, pixels => do
    let columns := placesFrom pass.firstColumn pass.columnStep h.width
    let count := placesFrom pass.firstRow pass.rowStep h.height
    -- A pass without pixels has no rows either.
    if columns = 0 ∨ count = 0 then readPasses h others bytes pixels
    else
      let bits := h.kind.samples * h.depth
      let (rows, bytes) ← rows? (max 1 (bits / 8)) ((columns * bits + 7) / 8) count #[] bytes
      readPasses h others bytes (placePass h pass rows pixels)

/-! ### Pixels -/

/-- A sample as a byte: of less than one, so that the largest value fills it. -/
def byteOf (depth sample : Nat) : UInt8 :=
  if depth = 16 then narrowed sample else UInt8.ofNat (sample * (255 / (1 <<< depth - 1)))

/-- The colour at a place of a table. -/
def colorAt (f : File) (place : Nat) : Pixel :=
  let part := fun k => f.colors[3 * place + k]?.getD 0
  ⟨part 0, part 1, part 2, (f.transparent.getD [])[place]?.getD 255⟩

/-- Is it the colour that is transparent, whose samples fill two bytes each? -/
def isTransparent (f : File) (samples : List Nat) : Bool :=
  match f.transparent with
  | none => false
  | some given =>
    let wide := fun k => bigEndian ((given.drop (2 * k)).take 2)
    samples = (List.range samples.length).map fun k =>
      if f.header.depth = 16 then wide k else wide k % 256

/-- The pixel of some samples. -/
def pixelOf (f : File) (samples : List Nat) : Pixel :=
  let opacity : UInt8 := if isTransparent f samples then 0 else 255
  let bytes := samples.map (byteOf f.header.depth)
  match f.header.kind, samples, bytes with
  | .indexed, [place], _ => colorAt f place
  | .gray, _, [v] => ⟨v, v, v, opacity⟩
  | .rgb, _, [r, g, b] => ⟨r, g, b, opacity⟩
  | .grayAlpha, _, [v, a] => ⟨v, v, v, a⟩
  | .rgba, _, [r, g, b, a] => ⟨r, g, b, a⟩
  | _, _, _ => default

/-- What the pixels are made of. -/
def color (f : File) : Color :=
  let wide := decide (f.header.depth = 16)
  let hasOpacity := f.transparent.isSome
  match f.header.kind with
  | .indexed => if hasOpacity then .rgba else .rgb
  | .gray =>
    if hasOpacity then if wide then .grayAlpha16 else .grayAlpha
    else if wide then .gray16 else .gray
  | .rgb =>
    if hasOpacity then if wide then .rgba16 else .rgba
    else if wide then .rgb16 else .rgb
  | .grayAlpha => if wide then .grayAlpha16 else .grayAlpha
  | .rgba => if wide then .rgba16 else .rgba

/-- A picture: its pixels and what they are made of. -/
def decode? (bytes : ByteArray) : Option (Color × Canvas) := do
  let f ← File.parse? bytes.data.toList
  let h := f.header
  if largestArea < h.width * h.height ∨ (h.kind = .indexed ∧ f.colors.isEmpty) then none
  else
    let stored ← Deflate.decompress? f.pixels
    let samples ← readPasses h (passes h.interlaced) stored.toList
      (Array.replicate (h.width * h.height) [])
    some (color f, .ofPixels h.width h.height (samples.map (pixelOf f)))

end Rendition.Picture.Png

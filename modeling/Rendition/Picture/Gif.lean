import Rendition.Picture.Encoded
import Rendition.Picture.Fields
import Rendition.Picture.Lzw

/-!
# Rendition.Picture.Gif

Reading animations in GIF. A file has a header, perhaps with a table of colours, and then blocks:
images, extensions, of which one says how the next image is shown, and a mark of the end. An image
is a rectangle of places in a table of colours. It is drawn on what the images before it left
behind, so every frame has the size of the whole.
-/

namespace Rendition.Picture.Gif

/-! ### Headers -/

/-- What the header says. -/
structure Screen where
  width : Nat
  height : Nat
  /-- The table of colours for images without one of their own. -/
  colors : Option (List UInt8)

/-- The bytes in front of the header. -/
def signatureLength : Nat := 6

/-- The table of colours that some flags announce, if they do, and what follows it. -/
def colorTable? (flags : Nat) (bytes : List UInt8) :
    Option (Option (List UInt8) × List UInt8) :=
  if flags.testBit 7 then
    (run? (3 * 1 <<< (flags % 8 + 1)) bytes).map fun (table, rest) => (some table, rest)
  else some (none, bytes)

/-- The data of blocks up to an empty one, within a number of steps, and what follows. -/
def blocks? : (steps : Nat) → List UInt8 → Option (List UInt8 × List UInt8)
  | steps + 1, size :: bytes =>
    if size = 0 then some ([], bytes)
    else do
      let (data, bytes) ← run? size.toNat bytes
      let (others, bytes) ← blocks? steps bytes
      some (data ++ others, bytes)
  | _, _ => none

/-- The mark of an extension, and the label of one for an application. -/
def extensionMark : UInt8 := 0x21

/-- The label of an extension for an application. -/
def applicationLabel : UInt8 := 0xFF

/-- Does the header end here? It goes on over extensions for applications. -/
def headerEnds : (steps : Nat) → List UInt8 → Bool
  | steps + 1, mark :: label :: bytes =>
    if mark = extensionMark ∧ label = applicationLabel then
      (blocks? bytes.length bytes).any fun (_, rest) => headerEnds steps rest
    else mark ∈ [extensionMark, 0x2C, 0x3B]
  | _, [mark] => mark ∈ [0x2C, 0x3B]
  | _, _ => false

/-- The header and the blocks that follow it. -/
def Screen.parse? (bytes : List UInt8) : Option (Screen × List UInt8) := do
  let (_, rest) ← run? signatureLength bytes
  let (width, rest) ← little? 2 rest
  let (height, rest) ← little? 2 rest
  let (flags, rest) ← little? 1 rest
  let (_, rest) ← run? 2 rest
  let (colors, rest) ← colorTable? flags rest
  if headerEnds rest.length rest then some (⟨width, height, colors⟩, rest) else none

/-! ### Images -/

/-- What becomes of an image when the next one is drawn. -/
inductive Disposal where
  | keep
  /-- Its rectangle is emptied. -/
  | clear
  /-- What was there before is put back. -/
  | restore
  deriving DecidableEq

/-- How an image is shown. -/
structure Control where
  disposal : Disposal
  /-- For how many milliseconds. -/
  delay : Nat
  /-- The place in the table of colours that is transparent. -/
  transparent : Option Nat

/-- How an image is shown of which nothing else is said. -/
def Control.plain : Control := ⟨.keep, 0, none⟩

/-- The control of an extension. -/
def Control.parse? (data : List UInt8) : Option Control := do
  let (flags, rest) ← little? 1 data
  let (delay, rest) ← little? 2 rest
  let (place, _) ← little? 1 rest
  let disposal := match flags / 4 % 8 with
    | 2 => Disposal.clear
    | 3 => .restore
    | _ => .keep
  some ⟨disposal, 10 * delay, if flags.testBit 0 then some place else none⟩

/-- An image. -/
structure Drawing where
  left : Nat
  top : Nat
  width : Nat
  height : Nat
  /-- The pixels row after row; one that is not opaque shows what is below. -/
  pixels : Array Pixel
  control : Control

/-- The rows in the order of the file. -/
def rowOrder (interlaced : Bool) (height : Nat) : List Nat :=
  let every := fun first step => (List.range height).filter fun row =>
    first ≤ row ∧ (row - first) % step = 0
  if interlaced then every 0 8 ++ every 4 8 ++ every 2 4 ++ every 1 2 else List.range height

/-- The colour at a place of a table. -/
def colorAt (table : List UInt8) (transparent : Option Nat) (place : Nat) : Pixel :=
  match table.drop (3 * place) with
  | red :: green :: blue :: _ => ⟨red, green, blue, if transparent = some place then 0 else 255⟩
  | _ => ⟨0, 0, 0, 0⟩

/-- The bits of a single value are fewer than this. -/
def valueBitsLimit : Nat := 12

/-- The image at the start of some bytes, behind its mark, and what follows it. -/
def drawing? (screen : Screen) (control : Control) (bytes : List UInt8) :
    Option (Drawing × List UInt8) := do
  let (left, rest) ← little? 2 bytes
  let (top, rest) ← little? 2 rest
  let (width, rest) ← little? 2 rest
  let (height, rest) ← little? 2 rest
  let (flags, rest) ← little? 1 rest
  let (own, rest) ← colorTable? flags rest
  let (valueBits, rest) ← little? 1 rest
  let (data, rest) ← blocks? rest.length rest
  let table ← own <|> screen.colors
  let area := width * height
  if valueBitsLimit ≤ valueBits ∨ largestArea < area then none
  else
    let places ← Lzw.decompress? valueBits area data
    if places.size < area then none
    else
      let colors := (Array.range 256).map (colorAt table control.transparent)
      let stored := places.map fun place => colors.getD place.toNat default
      let pixels := (rowOrder (flags.testBit 6) height).zipIdx.foldl (fun pixels (row, line) =>
        (List.range width).foldl (fun (pixels : Array Pixel) column =>
          pixels.setIfInBounds (row * width + column) (stored.getD (line * width + column) default))
          pixels) stored
      some (⟨left, top, width, height, pixels, control⟩, rest)

/-- The label of an extension that says how the next image is shown. -/
def controlLabel : UInt8 := 0xF9

/-- The images up to the mark of the end, within a number of steps. -/
def drawings? (screen : Screen) : (steps : Nat) → Control → List UInt8 → Option (List Drawing)
  | _, _, 0x3B :: _ => some []
  | steps + 1, control, 0x2C :: bytes => do
    let (drawing, rest) ← drawing? screen control bytes
    (drawing :: ·) <$> drawings? screen steps .plain rest
  | steps + 1, control, 0x21 :: label :: bytes => do
    let (data, rest) ← blocks? bytes.length bytes
    let control ← if label = controlLabel then Control.parse? data else some control
    drawings? screen steps control rest
  | _, _, _ => none

/-! ### Frames -/

/-- The pixel of an image at a place of the screen, if it covers the place and is opaque there. -/
def Drawing.pixelAt? (d : Drawing) (column row : Nat) : Option Pixel :=
  if d.left ≤ column ∧ column < d.left + d.width ∧ d.top ≤ row ∧ row < d.top + d.height then
    let p := d.pixels.getD ((row - d.top) * d.width + (column - d.left)) default
    if p.alpha = 0 then none else some p
  else none

/-- Does an image cover a place of the screen? -/
def Drawing.covers (d : Drawing) (column row : Nat) : Bool :=
  d.left ≤ column && column < d.left + d.width && d.top ≤ row && row < d.top + d.height

/-- The pixels of a screen row after row. -/
def Screen.tabulate (screen : Screen) (pixel : Nat → Nat → Pixel) : Array Pixel :=
  (Array.range (screen.width * screen.height)).map fun place =>
    pixel (place % screen.width) (place / screen.width)

/-- The frames of some images that are drawn on pixels that others left behind. -/
def framesOn (screen : Screen) : (below : Array Pixel) → List Drawing → List Frame
  | _, [] => []
  | below, d :: others =>
    let belowAt := fun column row => below.getD (row * screen.width + column) default
    let shown := screen.tabulate fun column row =>
      (d.pixelAt? column row).getD (belowAt column row)
    let left := match d.control.disposal with
      | .keep => shown
      | .restore => below
      | .clear => screen.tabulate fun column row =>
        if d.covers column row then ⟨0, 0, 0, 0⟩ else belowAt column row
    ⟨.ofPixels screen.width screen.height shown, d.control.delay⟩ :: framesOn screen left others

/-- Each image is a frame. -/
theorem length_framesOn (screen : Screen) (below : Array Pixel) (drawings : List Drawing) :
    (framesOn screen below drawings).length = drawings.length := by
  induction drawings generalizing below with
  | nil => rfl
  | cons d others ih => simp [framesOn, ih]

/-- Each frame has the size of the screen. -/
theorem size_of_mem_framesOn (screen : Screen) (below : Array Pixel) (drawings : List Drawing) :
    ∀ f ∈ framesOn screen below drawings,
      f.canvas.width = UInt32.ofNat screen.width ∧ f.canvas.height = UInt32.ofNat screen.height := by
  induction drawings generalizing below with
  | nil => exact nofun
  | cons d others ih =>
      intro f hf
      rcases List.mem_cons.1 hf with rfl | hlater
      · exact ⟨rfl, rfl⟩
      · exact ih _ f hlater

/-- The frames of an animation, given its header and blocks. -/
def frames? (screen : Screen) (blocks : List UInt8) : Option (List Frame) := do
  let area := screen.width * screen.height
  if largestArea < area then none
  else
    let drawings ← drawings? screen (blocks.length + 1) .plain blocks
    some (framesOn screen (Array.replicate area ⟨0, 0, 0, 0⟩) drawings)

end Rendition.Picture.Gif

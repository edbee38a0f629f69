/-!
# Rendition.Picture.Canvas

Decoded pictures. A canvas has a size and, where they are known, the values of its pixels: a
resampling filter or a lossy encoding leaves a canvas of known size whose pixels are not given.
Pixels have eight bits in each of their four channels. Those of a canvas of another `Color` are
represented by the nearest of these, which is themselves unless they are made of two bytes.
-/

namespace Rendition.Picture

/-- The value of a pixel. -/
structure Pixel where
  red : UInt8
  green : UInt8
  blue : UInt8
  alpha : UInt8
  deriving DecidableEq, Repr, Inhabited

/-- What a pixel is made of. -/
inductive Color where
  /-- One channel. -/
  | gray
  /-- One channel and one for opacity. -/
  | grayAlpha
  /-- Three channels. -/
  | rgb
  /-- Three channels and one for opacity. -/
  | rgba
  /-- One channel of two bytes. -/
  | gray16
  /-- One channel of two bytes and one for opacity. -/
  | grayAlpha16
  /-- Three channels of two bytes each. -/
  | rgb16
  /-- Four channels of two bytes each. -/
  | rgba16
  deriving DecidableEq, Repr

/-- The bytes of a pixel. -/
def Color.bytes : Color → Nat
  | gray => 1
  | grayAlpha => 2
  | rgb => 3
  | rgba => 4
  | gray16 => 2
  | grayAlpha16 => 4
  | rgb16 => 6
  | rgba16 => 8

/-- Is it made of one channel and one for opacity? -/
def Color.isGrayAlpha : Color → Bool
  | grayAlpha | grayAlpha16 => true
  | _ => false

/-- A rectangle of pixels. -/
structure Canvas where
  width : UInt32
  height : UInt32
  /-- The pixel at a column and a row, where known; of no meaning outside the rectangle. -/
  pixel? : Option (Nat → Nat → Pixel)

namespace Canvas

/-- The number of pixels. -/
def area (c : Canvas) : Nat := c.width.toNat * c.height.toNat

/-- A canvas of a given size whose pixels are not known. -/
def unknown (width height : UInt32) : Canvas := ⟨width, height, none⟩

/-- The canvas of pixels that stand in a list row after row. -/
def ofPixels (width height : Nat) (pixels : Array Pixel) : Canvas where
  width := UInt32.ofNat width
  height := UInt32.ofNat height
  pixel? := some fun column row => pixels.getD (row * width + column) default

/-- The canvas with each pixel replaced. -/
def mapPixels (f : Pixel → Pixel) (c : Canvas) : Canvas :=
  { c with pixel? := c.pixel?.map fun pixel column row => f (pixel column row) }

/-- The canvas with its pixels forgotten. -/
def forget (c : Canvas) : Canvas := { c with pixel? := none }

/-- The canvas without opacity. -/
def withoutOpacity (c : Canvas) : Canvas := c.mapPixels fun p => { p with alpha := 255 }

/-- The canvas on top of another one, which shows where it is transparent. -/
def drawnOn (top below : Canvas) : Canvas :=
  { top with
    pixel? := top.pixel?.map fun pixel column row =>
      let p := pixel column row
      match below.pixel? with
      | some under => if p.alpha = 0 then under column row else p
      | none => p }

/-- The last pixel that cannot be seen, if there is one. -/
def lastInvisible? (c : Canvas) : Option Pixel :=
  c.pixel?.bind fun pixel =>
    (List.range c.area).reverse.findSome? fun place =>
      let p := pixel (place % c.width.toNat) (place / c.width.toNat)
      if p.alpha = 0 then some p else none

/-- The rectangle of a canvas with a corner and a size. -/
def window (x y width height : UInt32) (c : Canvas) : Canvas where
  width := width
  height := height
  pixel? := c.pixel?.map fun pixel column row => pixel (x.toNat + column) (y.toNat + row)

/-- The channels of the pixels, row after row, where known. -/
def channels? (c : Canvas) : Option ByteArray :=
  c.pixel?.map fun pixel =>
    c.height.toNat.fold (fun row _ bytes =>
      c.width.toNat.fold (fun column _ bytes =>
        let p := pixel column row
        (((bytes.push p.red).push p.green).push p.blue).push p.alpha) bytes) ByteArray.empty

@[simp] theorem width_window (x y w h : UInt32) (c : Canvas) : (c.window x y w h).width = w := rfl
@[simp] theorem height_window (x y w h : UInt32) (c : Canvas) : (c.window x y w h).height = h := rfl

end Canvas

end Rendition.Picture

import Rendition.Picture.Canvas
import Rendition.Picture.Format

/-!
# Rendition.Picture.Encoded

Encoded pictures, by what can be told of them without their bytes: format, colour, frames, and the
quality that a lossy encoder was given. The quality is visible in the first quantisation table of a
JPEG file, which is the luminance table of the standard scaled by it.
-/

namespace Rendition.Picture

/-- A picture of a sequence, with the milliseconds for which it is shown. -/
structure Frame where
  canvas : Canvas
  delay : Nat

/-- A picture in a file. -/
structure Encoded where
  format : Format
  /-- What its pixels are made of when it is decoded. -/
  color : Color
  frames : List Frame
  /-- The quality a lossy encoder was given; 0 in other formats. -/
  quality : Nat := 0
  /-- How many bytes of it there are, if not all. -/
  kept? : Option Nat := none

/-! ### JPEG quality -/

/-- The standard luminance table, in the order of the file, in which it zigzags from the lowest
frequencies to the highest. -/
def luminanceTable : List Nat :=
  [16, 11, 12, 14, 12, 10, 16, 14, 13, 14, 18, 17, 16, 19, 24, 40, 26, 24, 22, 22, 24, 49, 35, 37,
    29, 40, 58, 51, 61, 60, 57, 51, 56, 55, 64, 72, 92, 78, 64, 68, 87, 69, 55, 56, 80, 109, 81, 87,
    95, 98, 103, 104, 103, 62, 77, 113, 121, 112, 100, 120, 92, 101, 103, 99]

/-- The percentage by which a quality scales the standard tables. -/
def qualityScale (quality : Nat) : Nat :=
  if quality < 50 then 5000 / quality else 200 - 2 * quality

/-- The luminance table at a quality. An entry is at least 1 and at most 255. -/
def luminanceTableAt (quality : Nat) : List Nat :=
  luminanceTable.map fun entry =>
    min 255 (max 1 ((entry * qualityScale quality + 50) / 100))

/-! ### What a decoder makes of a picture -/

/-- What pixels are made of once a picture whose pixels were made of `color` is written in a format
and read again. `none` is no way to write or to read it. -/
def Format.colorRead? (format : Format) (color : Color) : Option Color :=
  match format, color with
  | tiff, .grayAlpha => some .rgba
  | tiff, .grayAlpha16 => some .rgba16
  | png, c | tiff, c | pnm, c => some c
  | jpeg, .gray | jpeg, .gray16 => some .gray
  | jpeg, _ => some .rgb
  | gif, _ => some .rgba
  | bmp, .rgba | bmp, .rgba16 => some .rgba
  | webp, .rgba | webp, .rgba16 | webp, .grayAlpha | webp, .grayAlpha16 => some .rgba
  | bmp, _ | webp, _ => some .rgb
  | qoi, .rgb => some .rgb
  | qoi, .rgba => some .rgba
  | ico, .rgba => some .rgba
  | farbfeld, .rgba16 => some .rgba16
  | _, _ => none

/-- The bytes that decoding a picture takes. Frames of a sequence are composed, so one is held
beside the one that is drawn. -/
def Encoded.decodedBytes (e : Encoded) (color : Color) : Nat :=
  let area := match e.frames with
    | [] => 0
    | frame :: _ => frame.canvas.area
  match e.format with
  | .gif => 2 * Color.rgba.bytes * area
  | _ => color.bytes * area

example : (luminanceTableAt 90).take 4 = [3, 2, 2, 3] := by decide

end Rendition.Picture

import Rendition.Picture.Canvas
import Rendition.Picture.Fields

/-!
# Rendition.Picture.Farbfeld

Reading pictures in Farbfeld: a signature, a size, and four samples of two bytes for each pixel, all
with the highest byte first.
-/

namespace Rendition.Picture.Farbfeld

/-- The bytes in front of the size. -/
def signatureLength : Nat := 8

/-- A sample of two bytes, by its place among all samples. -/
def sample (bytes : Array UInt8) (index : Nat) : UInt8 :=
  narrowed (256 * (bytes.getD (2 * index) 0).toNat + (bytes.getD (2 * index + 1) 0).toNat)

/-- A picture: its pixels and what they are made of. -/
def decode? (bytes : ByteArray) : Option (Color × Canvas) := do
  let (_, rest) ← run? signatureLength bytes.data.toList
  let (width, rest) ← big? 4 rest
  let (height, rest) ← big? 4 rest
  let area := width * height
  if area = 0 ∨ largestArea < area then none
  else
    let (stored, _) ← run? (Color.rgba16.bytes * area) rest
    let stored := stored.toArray
    let pixels := Array.ofFn fun i : Fin area =>
      (⟨sample stored (4 * i), sample stored (4 * i + 1), sample stored (4 * i + 2),
        sample stored (4 * i + 3)⟩ : Pixel)
    some (.rgba16, .ofPixels width height pixels)

end Rendition.Picture.Farbfeld

import Rendition.Text.Case

/-!
# Rendition.Picture.Format

The formats of encoded pictures: the extensions that name them, and the bytes they open with, by
which alone a picture is recognised.
-/

namespace Rendition.Picture

/-- A way to encode pictures. -/
inductive Format where
  | png
  | jpeg
  | gif
  | webp
  | pnm
  | tiff
  | tga
  | dds
  | bmp
  | ico
  | hdr
  | openExr
  | farbfeld
  | avif
  | qoi
  deriving DecidableEq, Repr

namespace Format

/-- The name in messages. -/
def name : Format → String
  | png => "Png"
  | jpeg => "Jpeg"
  | gif => "Gif"
  | webp => "WebP"
  | pnm => "Pnm"
  | tiff => "Tiff"
  | tga => "Tga"
  | dds => "Dds"
  | bmp => "Bmp"
  | ico => "Ico"
  | hdr => "Hdr"
  | openExr => "OpenExr"
  | farbfeld => "Farbfeld"
  | avif => "Avif"
  | qoi => "Qoi"

/-! ### Extensions -/

/-- The extensions that name a format, in small letters. -/
def extensions : List (String × Format) :=
  [("png", png), ("apng", png), ("jpg", jpeg), ("jpeg", jpeg), ("jfif", jpeg), ("gif", gif),
    ("webp", webp), ("pbm", pnm), ("pam", pnm), ("ppm", pnm), ("pgm", pnm), ("pnm", pnm),
    ("tif", tiff), ("tiff", tiff), ("tga", tga), ("dds", dds), ("bmp", bmp), ("ico", ico),
    ("hdr", hdr), ("exr", openExr), ("ff", farbfeld), ("avif", avif), ("qoi", qoi)]

/-- The format that an extension names, in whatever case. -/
def ofExtension? (ext : String) : Option Format :=
  extensions.lookup (Text.lower ext)

/-- Can pictures be written in the format? The compressed textures of `dds` can only be read. -/
def isWritable : Format → Bool
  | dds => false
  | _ => true

/-! ### Signatures -/

/-- A byte of a signature; `none` stands for any byte. -/
abbrev Signature := List (Option UInt8)

/-- The signature of certain bytes. -/
def exactly (bytes : List UInt8) : Signature := bytes.map some

/-- The signature of certain characters of ASCII. -/
def spelled (s : String) : Signature := exactly (s.toList.map fun c => UInt8.ofNat c.toNat)

/-- The signatures, in the order in which they are tried. A picture in `tga` has none. -/
def signatures : List (Signature × Format) :=
  [(exactly [0x89, 0x50, 0x4e, 0x47, 0x0d, 0x0a, 0x1a, 0x0a], png),
    (exactly [0xff, 0xd8, 0xff], jpeg),
    (spelled "GIF89a", gif),
    (spelled "GIF87a", gif),
    (spelled "RIFF" ++ [none, none, none, none] ++ spelled "WEBP", webp),
    (exactly [0x4d, 0x4d, 0x00, 0x2a], tiff),
    (exactly [0x49, 0x49, 0x2a, 0x00], tiff),
    (spelled "DDS ", dds),
    (spelled "BM", bmp),
    (exactly [0x00, 0x00, 0x01, 0x00], ico),
    (spelled "#?RADIANCE", hdr),
    (exactly [0x00, 0x00, 0x00] ++ [none] ++ spelled "ftypavif", avif),
    (exactly [0x76, 0x2f, 0x31, 0x01], openExr),
    (spelled "qoif", qoi),
    (spelled "P1", pnm),
    (spelled "P2", pnm),
    (spelled "P3", pnm),
    (spelled "P4", pnm),
    (spelled "P5", pnm),
    (spelled "P6", pnm),
    (spelled "P7", pnm),
    (spelled "farbfeld", farbfeld)]

/-- Do the bytes open with a signature? -/
def Signature.opens : Signature → List UInt8 → Bool
  | [], _ => true
  | _ :: _, [] => false
  | none :: rest, _ :: bytes => opens rest bytes
  | some b :: rest, c :: bytes => b == c && opens rest bytes

/-- The length of the longest signature. -/
def longestSignature : Nat := 12

/-- The format whose signature the bytes open with. -/
def recognise? (bytes : ByteArray) : Option Format :=
  let opening := (bytes.extract 0 longestSignature).data.toList
  (signatures.find? fun (s, _) => s.opens opening).map (·.2)

/-- How many bytes a picture needs to be recognised, if it can be. -/
def signatureLength? : Format → Option Nat
  | tga => none
  | f => (signatures.find? fun (_, g) => g == f).map (·.1.length)

example : signatureLength? webp = some 12 ∧ signatureLength? tiff = some 4 := by decide

end Format

end Rendition.Picture

/-!
# Rendition.Picture.Checksum

The cyclic redundancy check of 32 bits by which the parts of a file are guarded. A register is
divided bit by bit by a polynomial whose highest coefficients stand lowest.
-/

namespace Rendition.Picture

/-- The polynomial of the check, without its highest power. -/
def crcPolynomial : UInt32 := 0xEDB88320

/-- The register after a bit. -/
def crcStep (register : UInt32) : UInt32 :=
  if register &&& 1 = 1 then (register >>> 1) ^^^ crcPolynomial else register >>> 1

/-- The register after a byte. -/
def crcByte (register : UInt32) (b : UInt8) : UInt32 :=
  Nat.repeat crcStep 8 (register ^^^ b.toUInt32)

/-- The check of some bytes. -/
def crc32 (bytes : List UInt8) : UInt32 :=
  bytes.foldl crcByte 0xFFFFFFFF ^^^ 0xFFFFFFFF

example : crc32 ("123456789".toUTF8.data.toList) = 0xCBF43926 := by decide +kernel

end Rendition.Picture

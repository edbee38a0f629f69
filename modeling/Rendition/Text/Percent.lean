import Rendition.Text.Hex

/-!
# Rendition.Text.Percent

Percent-encoding in the path of a URI. `percentDecode` replaces each `%` that two hexadecimal
digits follow by the byte they spell; a `%` that is followed by anything else stands for itself.
Decoding is done once: what it yields is not looked at again.
-/

namespace Rendition.Text

/-- The value of a byte that is a hexadecimal digit in ASCII. -/
def hexByteValue? (b : UInt8) : Option Nat :=
  if b.toNat < 128 then hexValue? (Char.ofNat b.toNat) else none

/-- Decodes the escapes of a list of bytes. -/
def percentDecodeBytes : List UInt8 → List UInt8
  | 0x25 :: high :: low :: rest =>
    match hexByteValue? high, hexByteValue? low with
    | some h, some l => UInt8.ofNat (16 * h + l) :: percentDecodeBytes rest
    | _, _ => 0x25 :: percentDecodeBytes (high :: low :: rest)
  | b :: rest => b :: percentDecodeBytes rest
  | [] => []

/-- The text that a percent-encoded text stands for, unless its bytes are no UTF-8. -/
def percentDecode? (s : String) : Option String :=
  String.fromUTF8? ⟨(percentDecodeBytes s.toUTF8.data.toList).toArray⟩

end Rendition.Text

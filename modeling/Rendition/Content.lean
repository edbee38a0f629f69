import Rendition.Picture.Encoded
import Rendition.Validator

/-!
# Rendition.Content

What files, cache entries and response bodies hold: bytes, or a picture that an encoder wrote, of
which the facts are known and the bytes are not.
-/

namespace Rendition

/-- The content of a file. -/
inductive Content where
  | bytes (bytes : ByteArray)
  | picture (picture : Picture.Encoded)

namespace Content

instance : Inhabited Content := ⟨bytes .empty⟩

/-- The content that a text has in UTF-8. -/
def text (s : String) : Content := bytes s.toUTF8

/-- The number of bytes, if known. -/
def size? : Content → Option Nat
  | bytes b => some b.size
  | picture _ => none

/-- The strong validator, if the bytes are known. -/
def etag? : Content → Option String
  | bytes b => some (Validator.etag b)
  | picture _ => none

end Content

end Rendition

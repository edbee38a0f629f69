import Rendition.Text.Case

/-!
# Rendition.MediaType

The media types of responses, which are chosen by the extension of the requested path alone. Any
extension outside the table, and the lack of one, gives the type of arbitrary bytes.
-/

namespace Rendition.MediaType

/-- The type of bytes of which nothing is known. -/
def arbitrary : String := "application/octet-stream"

/-- The extensions that have a type of their own, in small letters. -/
def table : List (String × String) :=
  [("jpg", "image/jpeg"), ("jpeg", "image/jpeg"), ("png", "image/png"), ("gif", "image/gif"),
    ("bmp", "image/bmp"), ("webp", "image/webp"), ("tif", "image/tiff"), ("tiff", "image/tiff"),
    ("tga", "image/x-tga"), ("ico", "image/x-icon"), ("avif", "image/avif"),
    ("svg", "image/svg+xml")]

/-- The type of a file with an extension, whose case does not matter. -/
def ofExtension : Option String → String
  | none => arbitrary
  | some ext => (table.lookup (Text.lower ext)).getD arbitrary

end Rendition.MediaType

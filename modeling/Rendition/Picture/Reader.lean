import Rendition.Picture.ArbitraryMap
import Rendition.Picture.Bmp
import Rendition.Picture.Farbfeld
import Rendition.Picture.Gif
import Rendition.Picture.Jpeg
import Rendition.Picture.Png
import Rendition.Picture.Qoi

/-!
# Rendition.Picture.Reader

What an encoded picture is, from its bytes. Formats with other compressed pixels than those of PNG,
GIF and QOI are recognised but not read, except that of JPEG the size is.
-/

namespace Rendition.Picture

/-- Why bytes are no picture of a format. -/
inductive Unreadable where
  /-- They do not follow the format, already in the header or only behind it. -/
  | malformed (header : Bool)
  /-- There is an animation without images. -/
  | empty
  deriving DecidableEq

/-- A picture of one frame. -/
def still (format : Format) (picture : Option (Color × Canvas)) : Except Unreadable Encoded :=
  match picture with
  | none => .error (.malformed true)
  | some (color, canvas) => .ok { format, color, frames := [⟨canvas, 0⟩] }

/-- The frames of an animation. -/
def readAnimation (bytes : ByteArray) : Except Unreadable Encoded :=
  match Gif.Screen.parse? bytes.data.toList with
  | none => .error (.malformed true)
  | some (screen, blocks) =>
    match Gif.frames? screen blocks with
    | none => .error (.malformed false)
    | some [] => .error .empty
    | some frames => .ok { format := .gif, color := .rgba, frames }

/-- What the bytes hold as a picture of a format. -/
def read (format : Format) (bytes : ByteArray) : Except Unreadable Encoded :=
  match format with
  | .gif => readAnimation bytes
  | .pnm => still .pnm (Netpbm.decode? bytes <|> ArbitraryMap.decode? bytes)
  | .png => still .png (Png.decode? bytes)
  | .jpeg => still .jpeg (Jpeg.decode? bytes)
  | .bmp => still .bmp (Bmp.decode? bytes)
  | .qoi => still .qoi (Qoi.decode? bytes)
  | .farbfeld => still .farbfeld (Farbfeld.decode? bytes)
  | _ => .error (.malformed true)

end Rendition.Picture

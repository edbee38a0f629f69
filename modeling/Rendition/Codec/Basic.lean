import Rendition.Content
import Rendition.Directive.Basic

/-!
# Rendition.Codec.Basic

What the library asks of an image library. A `Codec` decodes contents into pictures under
transformation, transforms them and encodes them; between its calls it may keep a state of its own,
such as a record of the calls. Each call can fail, and a picture that a call failed on is not used
again.
-/

namespace Rendition

/-- The calls on a codec: they use its state `κ` and can fail. -/
abbrev CodecM (κ : Type) := ExceptT Error (StateM κ)

/-- An image library with the state `κ`, whose pictures under transformation are of type `η`. -/
structure Codec (κ η : Type) where
  /-- Decodes a content. -/
  decode : Content → CodecM κ η
  /-- Resamples to a height and a width. -/
  resize : (height width : UInt32) → η → CodecM κ η
  /-- Keeps the region of a width and a height whose corner is at a column and a row. -/
  crop : (width height : UInt32) → (x y : Int64) → η → CodecM κ η
  /-- Sets the quality of the encoder. -/
  setQuality : (quality : UInt32) → η → CodecM κ η
  /-- Encodes in the format that an extension names. -/
  encode : (extension : String) → η → CodecM κ Content

namespace Codec

variable {κ η : Type}

/-- Carries out a directive. -/
def apply (codec : Codec κ η) : Directive → η → CodecM κ η
  | .resize height width => codec.resize height width
  | .crop height width dy dx => codec.crop width height dx dy
  | .quality value => codec.setQuality value

end Codec

end Rendition

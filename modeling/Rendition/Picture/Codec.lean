import Rendition.Codec.Basic
import Rendition.Picture.Handle
import Rendition.Picture.Reader

/-!
# Rendition.Picture.Codec

The codec of pictures. A source is recognised by its first bytes alone and decoded if that takes no
more memory than the budget of pixels allows; only an animation keeps more than one frame. Encoding
takes the format that the extension names, or that of the source, and all formats but the animated
one take the first frame only.

What the codec says of a picture is what holds of it whatever library does the work: sizes, frames,
colours, the quality of the encoder, and the pixels as long as nothing has resampled or quantised
them.
-/

namespace Rendition.Picture

/-- The pixels a codec may hold for one picture when nothing else is asked for. -/
def defaultBudget : UInt64 := 67108864

/-- The quality of a lossy encoder when none was set. -/
def defaultQuality : UInt8 := 90

/-- The memory that decoding may always take. -/
def leastMemory : Nat := 65536

/-- The bytes that decoding may take under a budget of pixels: those of a picture of the widest
pixels. -/
def memoryLimit (budget : UInt64) : Nat :=
  max (Word.saturatingMul budget 8).toNat leastMemory

/-! ### Decoding -/

/-- The error for a source that no signature fits. -/
def unrecognised : Error :=
  .codec ⟨"unrecognized image data", some "no picture format opens with these bytes"⟩

/-- The error for a source that its format does not explain. -/
def undecodable (stage reason : String) : Error :=
  .codec ⟨"decode " ++ stage, some reason⟩

/-- What decoding a format is called in errors; of an animation, the header and the frames are told
apart. -/
def decodingStage (format : Format) (header : Bool) : String :=
  match format, header with
  | .gif, true => "gif"
  | .gif, false => "gif frames"
  | f, _ => f.name

/-- The bytes that an animation needs before its first frame: a signature, a screen, a table of two
colours and the mark of a block. -/
def animationHeader : Nat := 21

/-- A handle on decoded frames. -/
def handleOn (budget : UInt64) (source : Format) (color : Color) (frames : List Frame) :
    Handle where
  frames := frames
  color := color
  source := source
  quality := none
  budget := budget

/-- The error for an animation without images. -/
def noFrames : Error :=
  .codec "gif has no frames"

/-- Decodes bytes. -/
def decodeBytes (budget : UInt64) (bytes : ByteArray) : Except Error Handle :=
  match Format.recognise? bytes with
  | none => .error unrecognised
  | some format =>
    match read format bytes with
    | .error (.malformed header) =>
      .error (undecodable (decodingStage format header) "malformed picture")
    | .error .empty => .error noFrames
    | .ok e =>
      if memoryLimit budget < e.decodedBytes e.color then
        .error (undecodable (decodingStage format false) "memory limit exceeded")
      else .ok (handleOn budget format e.color e.frames)

/-- Is so much of a picture there that it is recognised? -/
def isRecognised (e : Encoded) : Bool :=
  match e.format.signatureLength?, e.kept? with
  | none, _ => false
  | some _, none => true
  | some length, some kept => length ≤ kept

/-- Decodes an encoded picture. -/
def decodePicture (budget : UInt64) (e : Encoded) : Except Error Handle :=
  if !isRecognised e then .error unrecognised
  else match e.kept? with
    | some kept =>
      .error (undecodable (decodingStage e.format (kept < animationHeader)) "unexpected end")
    | none =>
      match e.format.colorRead? e.color with
      | none => .error (undecodable (decodingStage e.format true) "unsupported picture")
      | some color =>
        if memoryLimit budget < e.decodedBytes color then
          .error (undecodable (decodingStage e.format false) "memory limit exceeded")
        else .ok (handleOn budget e.format color e.frames)

/-- Decodes a content. -/
def decode (budget : UInt64) : Content → Except Error Handle
  | .bytes bytes => decodeBytes budget bytes
  | .picture e => decodePicture budget e

/-! ### Encoding -/

/-- The longest side of a picture in a format, where it has a limit of its own. -/
def Format.longestSide? : Format → Option Nat
  | .ico => some 256
  | .webp => some 16384
  | .gif | .jpeg | .tga => some 65535
  | _ => none

/-- Can pixels made of `color` be written in a format? Pixels are narrowed or widened for most. -/
def Format.takesColor (format : Format) (color : Color) : Bool :=
  match format, color with
  | .hdr, _ | .openExr, _ => false
  | .farbfeld, c => c = .rgba16
  | .qoi, c => c = .rgb || c = .rgba
  | .gif, c => c = .gray || c = .grayAlpha || c = .rgb || c = .rgba
  | _, _ => true

/-- Can a canvas be written in a format? -/
def Format.takes (format : Format) (color : Color) (canvas : Canvas) : Bool :=
  format.takesColor color &&
    match format.longestSide? with
    | none => true
    | some side => canvas.width.toNat ≤ side && canvas.height.toNat ≤ side

/-- The most pixels of a frame whose colours a table of 256 is sure to hold. -/
def tableArea : Nat := 256

/-- A canvas in which one colour is transparent, that of the last pixel that cannot be seen, and all
others are opaque. -/
def oneTransparent (canvas : Canvas) : Canvas :=
  let invisible := canvas.lastInvisible?
  canvas.mapPixels fun p => if invisible = some p then ⟨0, 0, 0, 0⟩ else { p with alpha := 255 }

/-- What a format keeps of a canvas: a lossy one keeps the size, and an animation has a table of
colours. -/
def Format.keep (format : Format) (color : Color) (canvas : Canvas) : Canvas :=
  match format with
  | .jpeg | .avif => canvas.forget
  | .gif => if canvas.area ≤ tableArea then oneTransparent canvas else canvas.forget
  | .bmp => if color.isGrayAlpha then canvas.withoutOpacity else canvas
  | _ => canvas

/-- Frames as they are seen, each on top of what the one before left. -/
def composed : (below : Canvas) → List Frame → List Frame
  | _, [] => []
  | below, f :: others =>
    let shown := f.canvas.drawnOn below
    { f with canvas := shown } :: composed shown others

/-- The error for a picture that a format cannot take. -/
def unencodable (stage : String) : Error :=
  .codec ⟨"encode " ++ stage, some "the format cannot hold the picture"⟩

namespace Handle

/-- The quality for a lossy encoder. -/
def encodingQuality (h : Handle) : UInt8 :=
  h.quality.getD defaultQuality

/-- Writes an animation. -/
def encodeAnimation (h : Handle) : Except Error Encoded :=
  if h.frames.all fun f => Format.gif.takes h.color f.canvas then
    .ok
      { format := .gif
        color := h.color
        frames := composed (.unknown 0 0)
          (h.frames.map fun f => { f with canvas := Format.gif.keep h.color f.canvas }) }
  else .error (unencodable "gif frames")

/-- Writes the first frame as a picture of its own. -/
def encodeFirst (h : Handle) (format : Format) : Except Error Encoded :=
  match h.frames with
  | [] => .error (.codec "image has no frames")
  | first :: _ =>
    if format.takes h.color first.canvas then
      .ok
        { format
          color := if format = .jpeg then .rgb else h.color
          frames := [⟨format.keep h.color first.canvas, 0⟩]
          quality := if format = .jpeg then h.encodingQuality.toNat else 0 }
    else .error (unencodable (if format = .jpeg then "jpeg" else format.name))

/-- The format that an extension selects: the one it names, or that of the source. -/
def formatFor (h : Handle) (extension : String) : Format :=
  (Format.ofExtension? extension).getD h.source

/-- Encodes in the format that an extension selects. -/
def encode (h : Handle) (extension : String) : Except Error Encoded :=
  let format := h.formatFor extension
  if !format.isWritable then .error (.codec ("cannot encode " ++ format.name))
  else if format = .gif ∧ 1 < h.frames.length then h.encodeAnimation
  else h.encodeFirst format

end Handle

/-! ### The codec -/

/-- A refused operation as a failing call. -/
def call (outcome : Except Refusal Unit × Handle) : CodecM Unit Handle :=
  match outcome with
  | (.ok (), h) => pure h
  | (.error refusal, _) => throw refusal.toError

/-- An outcome as a call. -/
def settle {α : Type} (outcome : Except Error α) : CodecM Unit α :=
  ExceptT.mk (pure outcome)

/-- The codec with a budget of pixels for each picture. -/
def raster (budget : UInt64) : Codec Unit Handle where
  decode source := settle (decode budget source)
  resize height width h := call (h.resize height width)
  crop width height x y h := call (h.crop width height x y)
  setQuality quality h := call (h.setQuality quality)
  encode extension h := settle ((h.encode extension).map Content.picture)

end Rendition.Picture

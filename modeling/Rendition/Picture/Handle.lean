import Rendition.Error
import Rendition.Picture.Encoded
import Rendition.Word

/-!
# Rendition.Picture.Handle

Decoded pictures under transformation. A `Handle` holds the frames of a picture, one unless it is an
animation, and every operation applies to all of them. Each answers whether it was carried out,
beside the handle as it is then; the module `Rendition.Picture.Codec` makes a codec of them.

A resize is refused before any frame is touched if the frames together would have more pixels than
the budget of the handle. One that passes the budget can still ask for more memory than one piece can
have, and then there is no answer at all (`Handle.answerResize`). A crop keeps the part of the region
asked for that lies on the frame, and is refused where there is none.
-/

namespace Rendition.Picture

open Word

/-- A picture under transformation. -/
structure Handle where
  frames : List Frame
  /-- What the pixels are made of. -/
  color : Color
  /-- The format of the source. -/
  source : Format
  /-- The quality for a lossy encoder, once one was set. -/
  quality : Option UInt8
  /-- The most pixels that the frames may have together. -/
  budget : UInt64

/-- Why an operation was refused. -/
inductive Refusal where
  /-- A resize to nothing. -/
  | emptySize (width height : UInt32)
  /-- A resize to more pixels than the budget. -/
  | overBudget (width height : UInt32) (frames : Nat) (budget : UInt64)
  /-- A crop that keeps nothing of a frame. -/
  | outside (width height : UInt32) (x y : Int64) (frameWidth frameHeight : UInt32)
  /-- A quality that no encoder knows. -/
  | badQuality (quality : UInt32)
  deriving DecidableEq

namespace Refusal

/-- A number with its sign, also in front of a positive one. -/
def withSign (n : Int) : String :=
  if n < 0 then toString n else "+" ++ toString n

/-- Two numbers of a size. -/
def sizeText (width height : UInt32) : String :=
  toString width.toNat ++ "x" ++ toString height.toNat

/-- The error that reports a refusal. -/
def toError : Refusal → Error
  | emptySize width height =>
    .codec ("resize to " ++ sizeText width height ++ " has an empty dimension")
  | overBudget width height frames budget =>
    .codec ("resize to " ++ sizeText width height ++ " over " ++ toString frames
      ++ " frame(s) exceeds the " ++ toString budget.toNat ++ " pixel budget")
  | outside width height x y frameWidth frameHeight =>
    .codec ("crop " ++ sizeText width height ++ withSign x.toInt ++ withSign y.toInt
      ++ " lies outside a " ++ sizeText frameWidth frameHeight ++ " image")
  | badQuality quality =>
    .codec ("quality " ++ toString quality.toNat ++ " is outside 1..=100")

end Refusal

/-! ### Regions -/

/-- A part of one side of a frame: where it starts and how long it is. -/
structure Extent where
  start : UInt32
  length : UInt32
  deriving DecidableEq

/-- The part of a side of length `whole` that lies within `length` from an offset, unless there is
none. -/
def Extent.cut? (offset : Int64) (length whole : UInt32) : Option Extent :=
  let first := max offset 0
  let past := min (saturatingAdd offset (signed length)) (signed whole)
  if past ≤ first then none else some ⟨low first, low (past - first)⟩

namespace Frame

/-- The part of a frame within a region, unless there is none. -/
def cut? (width height : UInt32) (x y : Int64) (f : Frame) : Option Frame := do
  let columns ← Extent.cut? x width f.canvas.width
  let rows ← Extent.cut? y height f.canvas.height
  some { f with
    canvas := f.canvas.window columns.start rows.start columns.length rows.length }

/-- A frame resampled to a size. -/
def resized (width height : UInt32) (f : Frame) : Frame :=
  { f with canvas := .unknown width height }

end Frame

/-- Replaces the frames by their parts within a region, one after the other, up to the first that
has none. -/
def cutFrames (width height : UInt32) (x y : Int64) :
    List Frame → Except Refusal Unit × List Frame
  | [] => (.ok (), [])
  | f :: rest =>
    match f.cut? width height x y with
    | none => (.error (.outside width height x y f.canvas.width f.canvas.height), f :: rest)
    | some part =>
      let (outcome, parts) := cutFrames width height x y rest
      (outcome, part :: parts)

/-! ### Operations -/

/-- The most bytes that one piece of memory can have. -/
def largestPiece : Nat := 0x7fffffffffffffff

namespace Handle

/-- The pixels of all frames. -/
def area (h : Handle) : Nat :=
  h.frames.foldl (fun n frame => n + frame.canvas.area) 0

/-- Is there memory for the frames, each with its pixels in one piece? -/
def hasRoom (h : Handle) : Bool :=
  h.frames.all fun frame => h.color.bytes * frame.canvas.area ≤ largestPiece

/-- Resamples every frame to a size. -/
def resize (height width : UInt32) (h : Handle) : Except Refusal Unit × Handle :=
  if height = 0 ∨ width = 0 then (.error (.emptySize width height), h)
  else
    -- A product beyond a word counts as the largest word.
    let frames := h.frames.length
    let pixels := saturatingMul (saturatingMul width.toUInt64 height.toUInt64) (saturated frames)
    if h.budget < pixels then (.error (.overBudget width height frames h.budget), h)
    else (.ok (), { h with frames := h.frames.map (Frame.resized width height) })

/-- Resamples every frame to a size, as far as there is an answer: where the resize passes but there
is no memory for what it leaves there is none, and the picture stays as it was. -/
def answerResize (height width : UInt32) (h : Handle) : Option (Except Refusal Unit) × Handle :=
  match h.resize height width with
  | (.ok (), left) => if left.hasRoom then (some (.ok ()), left) else (none, h)
  | (.error refusal, left) => (some (.error refusal), left)

/-- Keeps a region of every frame. -/
def crop (width height : UInt32) (x y : Int64) (h : Handle) : Except Refusal Unit × Handle :=
  let (outcome, frames) := cutFrames width height x y h.frames
  (outcome, { h with frames })

/-- Sets the quality for a lossy encoder, from 1 to 100. -/
def setQuality (quality : UInt32) (h : Handle) : Except Refusal Unit × Handle :=
  if 1 ≤ quality ∧ quality ≤ 100 then (.ok (), { h with quality := some quality.toUInt8 })
  else (.error (.badQuality quality), h)

end Handle

end Rendition.Picture

import Rendition.Codec.Basic

/-!
# Rendition.Codec.Sketch

A codec that draws nothing: its pictures are the bytes of the source with a mark behind them for
every call, so the result shows what was done and in which order. It also keeps a record of its
calls, failing ones included. It serves to look at chains without the cost of pictures.
-/

namespace Rendition.Codec.Sketch

/-- A call of the codec. -/
inductive Call where
  | decode (size : Nat)
  | resize (height width : UInt32)
  | crop (width height : UInt32) (x y : Int64)
  | quality (value : UInt32)
  | encode (extension : String)
  deriving DecidableEq

/-- A call in the record. -/
def Call.text : Call → String
  | decode size => "open " ++ toString size
  | resize height width => "resize " ++ toString height.toNat ++ " " ++ toString width.toNat
  | crop width height x y =>
    "crop " ++ toString width.toNat ++ " " ++ toString height.toNat ++ " " ++ toString x.toInt
      ++ " " ++ toString y.toInt
  | quality value => "quality " ++ toString value.toNat
  | encode extension => "encode " ++ extension

/-- The mark that a call leaves behind the source. -/
def Call.mark : Call → String
  | decode _ => ""
  | resize height width => "|r" ++ toString height.toNat ++ "," ++ toString width.toNat
  | crop width height x y =>
    "|c" ++ toString width.toNat ++ "," ++ toString height.toNat ++ "," ++ toString x.toInt ++ ","
      ++ toString y.toInt
  | quality value => "|q" ++ toString value.toNat
  | encode extension => "|e" ++ extension

/-- The calls so far, in order. -/
abbrev Record := Array Call

/-- Records a call, which yields `outcome`. -/
def call {α : Type} (c : Call) (outcome : Except Error α) : CodecM Record α := do
  modify (·.push c)
  liftExcept outcome
where
  /-- An outcome as a call that leaves the record alone. -/
  liftExcept (outcome : Except Error α) : CodecM Record α := ExceptT.mk (pure outcome)

/-- The bytes with the mark of a call behind them. -/
def marked (blob : ByteArray) (c : Call) : ByteArray :=
  blob ++ c.mark.toUTF8

/-- Decodes bytes, unless there are none or the first is an exclamation mark. -/
def decodeBytes (source : ByteArray) : Except Error ByteArray :=
  match source.data[0]? with
  | none => .error (.codec "empty source")
  | some b => if b = 0x21 then .error (.codec "bad source") else .ok source

/-- The codec. -/
def codec : Codec Record ByteArray where
  decode := fun
    | .bytes source => call (.decode source.size) (decodeBytes source)
    | .picture _ => call (.decode 0) (.error (.codec "bad source"))
  resize height width blob :=
    let c := Call.resize height width
    call c <|
      if height = 0 ∨ width = 0 then .error (.codec "empty resize") else .ok (marked blob c)
  crop width height x y blob :=
    let c := Call.crop width height x y
    call c (.ok (marked blob c))
  setQuality value blob :=
    let c := Call.quality value
    call c <|
      if 1 ≤ value ∧ value ≤ 100 then .ok (marked blob c)
      else .error (.codec ("bad quality " ++ toString value.toNat))
  encode extension blob :=
    let c := Call.encode extension
    call c <|
      if extension = "bad" then .error (.codec "bad extension")
      else .ok (.bytes (marked blob c))

end Rendition.Codec.Sketch

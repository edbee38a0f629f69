import Rendition.Text.Hex

/-!
# Rendition.Validator

The validators of response bodies. A body is hashed with the 64-bit FNV-1a function, a byte at a
time, and the hash is written with all its sixteen digits between double quotes, which marks it as a
strong validator.
-/

namespace Rendition.Validator

/-- The hash of no bytes. -/
def offsetBasis : UInt64 := 0xcbf29ce484222325

/-- The factor of each step. It is odd, so a step can be undone. -/
def prime : UInt64 := 0x00000100000001B3

/-- Takes one byte into a hash. -/
def step (h : UInt64) (b : UInt8) : UInt64 :=
  (h ^^^ b.toUInt64) * prime

/-- Takes bytes into a hash, in order. -/
def extend (h : UInt64) (bytes : List UInt8) : UInt64 :=
  bytes.foldl step h

/-- The hash of a body. -/
def hash (body : ByteArray) : UInt64 :=
  body.data.foldl step offsetBasis

/-- The hash of a body is that of its bytes taken in order. -/
theorem hash_eq_extend (body : ByteArray) : hash body = extend offsetBasis body.data.toList := by
  simp [hash, extend]

/-- Bytes can be taken in any number of portions. -/
@[simp] theorem extend_append (h : UInt64) (u v : List UInt8) :
    extend h (u ++ v) = extend (extend h u) v := by
  simp [extend]

/-- The strong validator of a body. -/
def etag (body : ByteArray) : String :=
  "\"" ++ Text.hex64 (hash body) ++ "\""

end Rendition.Validator

/-!
# Rendition.Picture.Fields

What stands at the start of some bytes: runs of a known length, and numbers whose bytes come from
the highest on or from the lowest on. Each reader answers what it read and the bytes that follow,
and nothing if there are too few.
-/

namespace Rendition.Picture

/-- The first `count` bytes and those that follow. -/
def run? (count : Nat) (bytes : List UInt8) : Option (List UInt8 × List UInt8) :=
  let run := bytes.take count
  if run.length = count then some (run, bytes.drop count) else none

/-- What was read and what follows are all there was. -/
theorem eq_append_of_run? {count : Nat} {bytes : List UInt8} {p : List UInt8 × List UInt8}
    (h : run? count bytes = some p) : bytes = p.1 ++ p.2 ∧ p.1.length = count := by
  simp only [run?] at h
  split at h
  · next hl =>
      obtain rfl := Option.some.inj h
      exact ⟨(List.take_append_drop ..).symm, hl⟩
  · cases h

/-- The number whose bytes are given from the highest on. -/
def bigEndian (bytes : List UInt8) : Nat :=
  bytes.foldl (fun n b => 256 * n + b.toNat) 0

/-- The number whose bytes are given from the lowest on. -/
def littleEndian (bytes : List UInt8) : Nat :=
  bytes.foldr (fun b n => b.toNat + 256 * n) 0

/-- Both orders of bytes are the same but for the order. -/
theorem littleEndian_eq (bytes : List UInt8) : littleEndian bytes = bigEndian bytes.reverse := by
  simp only [littleEndian, bigEndian, List.foldl_reverse]
  congr 1
  funext b n
  omega

/-- A number of `count` bytes, the highest first. -/
def big? (count : Nat) (bytes : List UInt8) : Option (Nat × List UInt8) :=
  (run? count bytes).map fun (run, rest) => (bigEndian run, rest)

/-- A number of `count` bytes, the lowest first. -/
def little? (count : Nat) (bytes : List UInt8) : Option (Nat × List UInt8) :=
  (run? count bytes).map fun (run, rest) => (littleEndian run, rest)

/-- The byte nearest to a sample of two bytes. -/
def narrowed (sample : Nat) : UInt8 :=
  UInt8.ofNat ((sample + 128) / 257)

/-- The largest size of which pixels are read here. -/
def largestArea : Nat := 0x400000

end Rendition.Picture

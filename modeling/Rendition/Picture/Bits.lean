/-!
# Rendition.Picture.Bits

Bytes as a row of bits, from the lowest of each byte on, as the compressed parts of pictures are
read.
-/

namespace Rendition.Picture

/-- The bits of some bytes, the lowest of each byte first. -/
def bitsOf (bytes : List UInt8) : List Bool :=
  bytes.flatMap fun b => (List.range 8).map b.toNat.testBit

/-- Every byte has eight bits. -/
theorem length_bitsOf (bytes : List UInt8) : (bitsOf bytes).length = 8 * bytes.length := by
  induction bytes with
  | nil => rfl
  | cons b rest ih =>
      have : (bitsOf (b :: rest)).length = 8 + (bitsOf rest).length := by simp [bitsOf]
      rw [this, ih, List.length_cons]
      omega

/-- A number of `count` bits, the lowest first, and the bits that follow. -/
def bits? : (count : Nat) → List Bool → Option (Nat × List Bool)
  | 0, bits => some (0, bits)
  | _ + 1, [] => none
  | count + 1, b :: bits => (bits? count bits).map fun (n, rest) => (b.toNat + 2 * n, rest)

/-- A number of so many bits is below a power of two. -/
theorem lt_of_bits? {count : Nat} {bits : List Bool} {p : Nat × List Bool}
    (h : bits? count bits = some p) : p.1 < 1 <<< count := by
  induction count generalizing bits p with
  | zero =>
      obtain rfl : (0, bits) = p := by simpa [bits?] using h
      simp
  | succ count ih =>
      cases bits with
      | nil => simp [bits?] at h
      | cons b rest =>
          obtain ⟨q, hq, rfl⟩ := Option.map_eq_some_iff.1 h
          have := ih hq
          have hb : b.toNat < 2 := by cases b <;> decide
          show b.toNat + 2 * q.1 < 1 <<< (count + 1)
          rw [Nat.shiftLeft_eq, Nat.one_mul] at this ⊢
          rw [Nat.pow_succ]
          omega

end Rendition.Picture

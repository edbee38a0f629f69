/-!
# Rendition.Word

Arithmetic on machine words that stops at the largest and the smallest word instead of wrapping.
-/

namespace Rendition.Word

/-- A number as a word, or the largest word if that is less. -/
def saturated (n : Nat) : UInt64 :=
  UInt64.ofNat (min (UInt64.size - 1) n)

/-- The product of two words, or the largest word if that is less. -/
def saturatingMul (a b : UInt64) : UInt64 :=
  saturated (a.toNat * b.toNat)

/-- The sum of two signed words, or the word nearest to it. -/
def saturatingAdd (a b : Int64) : Int64 :=
  Int64.ofInt (max Int64.minValue.toInt (min Int64.maxValue.toInt (a.toInt + b.toInt)))

/-- A word of 32 bits as a signed word, which has room for it. -/
def signed (a : UInt32) : Int64 :=
  Int64.ofNat a.toNat

/-- The lower 32 bits of a signed word. -/
def low (a : Int64) : UInt32 :=
  a.toUInt64.toUInt32

theorem toNat_saturated (n : Nat) : (saturated n).toNat = min (UInt64.size - 1) n := by
  unfold saturated
  rw [UInt64.toNat_ofNat_of_lt']
  exact Nat.lt_of_le_of_lt (Nat.min_le_left _ _) (by decide)

theorem toNat_saturatingMul (a b : UInt64) :
    (saturatingMul a b).toNat = min (UInt64.size - 1) (a.toNat * b.toNat) :=
  toNat_saturated _

theorem toInt_saturatingAdd (a b : Int64) :
    (saturatingAdd a b).toInt
      = max Int64.minValue.toInt (min Int64.maxValue.toInt (a.toInt + b.toInt)) := by
  have hmin : Int64.minValue.toInt = -0x8000000000000000 := rfl
  have hmax : Int64.maxValue.toInt = 0x7fffffffffffffff := rfl
  unfold saturatingAdd
  rw [Int64.toInt_ofInt_of_le] <;> omega

@[simp] theorem toInt_signed (a : UInt32) : (signed a).toInt = a.toNat := by
  have := a.toNat_lt
  rw [signed, Int64.toInt_ofNat_of_lt (by omega)]

theorem signed_injective {a b : UInt32} (h : signed a = signed b) : a = b := by
  have hint := congrArg Int64.toInt h
  simp only [toInt_signed] at hint
  exact UInt32.toNat_inj.1 (by omega)

theorem toInt_max (a b : Int64) : (max a b).toInt = max a.toInt b.toInt := by
  change (if a ≤ b then b else a).toInt = _
  split
  · next h => exact (Int.max_eq_right (Int64.le_iff_toInt_le.1 h)).symm
  · next h => exact (Int.max_eq_left (by rw [Int64.le_iff_toInt_le] at h; omega)).symm

theorem toInt_min (a b : Int64) : (min a b).toInt = min a.toInt b.toInt := by
  change (if a ≤ b then a else b).toInt = _
  split
  · next h => exact (Int.min_eq_left (Int64.le_iff_toInt_le.1 h)).symm
  · next h => exact (Int.min_eq_right (by rw [Int64.le_iff_toInt_le] at h; omega)).symm

/-- Nothing is lost of a signed word that 32 bits have room for. -/
theorem toNat_low {a : Int64} (hnonneg : 0 ≤ a.toInt) (hlt : a.toInt < UInt32.size) :
    ((low a).toNat : Int) = a.toInt := by
  have hle : 0 ≤ a := Int64.le_iff_toInt_le.2 hnonneg
  have hnat : a.toUInt64.toNat = a.toNatClampNeg := Int64.toNat_toUInt64_of_le hle
  have hint : (a.toNatClampNeg : Int) = a.toInt := (Int64.toInt_eq_toNatClampNeg hle).symm
  rw [low, UInt64.toNat_toUInt32, hnat, Nat.mod_eq_of_lt, hint]
  have : UInt32.size = 2 ^ 32 := rfl
  omega

end Rendition.Word

import Mathlib.Algebra.Group.Nat.Defs
import Mathlib.Logic.Function.Basic
import Rendition.Validator

/-!
# Rendition.Proofs.Validators

What the validator of a body tells apart. The factor of a step is odd, so it has an inverse among
the words, and a byte that was taken into a hash can be taken out again (`unstep_step`). So each
step is a bijection of the words, and bytes that follow a difference never level it
(`bijective_extend`): two bodies that differ in one byte have different hashes. A word is written
with all its digits, so different hashes have different validators (`etag_inj`), and no change of
one byte goes unseen (`etag_sees_changed_byte`).
-/

namespace Rendition.Validator

open Text

/-! ### Undoing a step -/

/-- The word that undoes the factor of a step. -/
def inversePrime : UInt64 := 0xce965057aff6957b

theorem prime_mul_inversePrime : prime * inversePrime = 1 := by decide

/-- Takes the byte that was last taken into a hash out of it. -/
def unstep (h : UInt64) (b : UInt8) : UInt64 :=
  (h * inversePrime) ^^^ b.toUInt64

theorem unstep_step (b : UInt8) : Function.LeftInverse (unstep · b) (step · b) := by
  intro h
  show (h ^^^ b.toUInt64) * prime * inversePrime ^^^ b.toUInt64 = h
  rw [UInt64.mul_assoc, prime_mul_inversePrime, UInt64.mul_one, UInt64.xor_assoc, UInt64.xor_self,
    UInt64.xor_zero]

theorem step_unstep (b : UInt8) : Function.RightInverse (unstep · b) (step · b) := by
  intro h
  show (h * inversePrime ^^^ b.toUInt64 ^^^ b.toUInt64) * prime = h
  rw [UInt64.xor_assoc, UInt64.xor_self, UInt64.xor_zero, UInt64.mul_assoc,
    UInt64.mul_comm inversePrime, prime_mul_inversePrime, UInt64.mul_one]

/-- Every word is the hash after a byte of exactly one word. -/
theorem bijective_step (b : UInt8) : Function.Bijective (step · b) :=
  ⟨(unstep_step b).injective, (step_unstep b).surjective⟩

/-- A hash goes on differently with each byte. -/
theorem injective_step (h : UInt64) : Function.Injective (step h) := by
  intro b c heq
  -- Without the factor, nothing but the bytes can differ.
  have hxor : h ^^^ b.toUInt64 = h ^^^ c.toUInt64 := by
    have hundone := congrArg (· * inversePrime) heq
    simpa only [step, UInt64.mul_assoc, prime_mul_inversePrime, UInt64.mul_one] using hundone
  exact UInt8.toUInt64_inj.1 ((UInt64.xor_right_inj h).1 hxor)

/-- Bytes that follow keep different hashes different, and every word is met. -/
theorem bijective_extend (bytes : List UInt8) : Function.Bijective (extend · bytes) := by
  induction bytes with
  | nil => exact Function.bijective_id
  | cons b rest ih => exact ih.comp (bijective_step b)

/-! ### Bodies -/

/-- The hash of a body goes on with the bytes behind it. -/
theorem hash_append (u v : ByteArray) : hash (u ++ v) = extend (hash u) v.data.toList := by
  simp [hash_eq_extend]

theorem hash_push (u : ByteArray) (b : UInt8) : hash (u.push b) = step (hash u) b := by
  simp [hash]

/-! ### Digits -/

/-- A digit tells the value that it stands for. -/
theorem mod_eq_of_hexDigit_eq {m n : Nat} (h : hexDigit m = hexDigit n) : m % 16 = n % 16 := by
  have hvalue : ∀ k, hexValue? (hexDigit k) = some (k % 16) := fun k => by
    have hdigit := hexValue?_hexDigit (k % 16) (Nat.mod_lt k (by decide))
    simpa [hexDigit] using hdigit
  exact Option.some.inj (by rw [← hvalue, ← hvalue, h])

/-- A number is determined by its digits, if there are enough of them. -/
theorem eq_of_hexDigits_eq {width m n : Nat} (hm : m < 16 ^ width) (hn : n < 16 ^ width)
    (h : hexDigits width m = hexDigits width n) : m = n := by
  induction width generalizing m n with
  | zero => omega
  | succ width ih =>
      obtain ⟨hfront, hlast⟩ := List.append_inj' h rfl
      have hhigh : m / 16 = n / 16 :=
        ih (by rw [Nat.pow_succ] at hm; omega) (by rw [Nat.pow_succ] at hn; omega) hfront
      have hlow := mod_eq_of_hexDigit_eq (List.singleton_inj.1 hlast)
      omega

/-- Different words are written differently. -/
theorem hex64_injective : Function.Injective hex64 := by
  intro w w' h
  have hdigits : hexDigits 16 w.toNat = hexDigits 16 w'.toNat := String.ofList_injective h
  exact UInt64.toNat_inj.1 (eq_of_hexDigits_eq w.toNat_lt w'.toNat_lt hdigits)

/-- Two bodies share a validator exactly if they share a hash. -/
theorem etag_inj {body other : ByteArray} : etag body = etag other ↔ hash body = hash other := by
  simp [etag, hex64_injective.eq_iff]

/-! ### Changed bytes -/

/-- Changing one byte of a body changes its validator, since nothing on the way from the byte to the
text brings two values together: neither the step that takes the byte in, nor the steps behind it,
nor the digits. Taking the bytes in two portions, wherever they are cut, makes no difference. -/
theorem etag_sees_changed_byte :
    (∀ (u v : ByteArray) (b c : UInt8), b ≠ c → etag (u.push b ++ v) ≠ etag (u.push c ++ v)) ∧
    (∀ b, Function.Bijective (step · b)) ∧ (∀ h, Function.Injective (step h)) ∧
    Function.Injective hex64 ∧ (∀ w, (hex64 w).length = 16) ∧
    ∀ u v : ByteArray,
      extend (extend offsetBasis u.data.toList) v.data.toList = hash (u ++ v) := by
  refine ⟨fun u v b c hne hetag => hne ?_, bijective_step, injective_step, hex64_injective,
    fun w => by simp [hex64], fun u v => by rw [hash_append, hash_eq_extend]⟩
  have hhash : extend (step (hash u) b) v.data.toList = extend (step (hash u) c) v.data.toList := by
    rw [← hash_push, ← hash_push, ← hash_append, ← hash_append]
    exact etag_inj.1 hetag
  exact injective_step (hash u) ((bijective_extend v.data.toList).injective hhash)

/-- The last letter of a word, with a line end behind it. -/
theorem etag_sees_changed_byte_letter :
    let one := ByteArray.mk #[0x6f, 0x6e]
    let rest := ByteArray.mk #[0x0a]
    (0x65 : UInt8) ≠ 0x6f ∧ etag (one.push 0x65 ++ rest) ≠ etag (one.push 0x6f ++ rest) :=
  ⟨by decide, etag_sees_changed_byte.1 _ _ _ _ (by decide)⟩

end Rendition.Validator

/-!
# Rendition.Text.Hex

Hexadecimal digits: reading one, and writing a word of 64 bits with sixteen of them, which is one
text for each word.
-/

namespace Rendition.Text

/-- The value of a hexadecimal digit of either case. -/
def hexValue? (c : Char) : Option Nat :=
  if '0' ≤ c ∧ c ≤ '9' then some (c.toNat - '0'.toNat)
  else if 'a' ≤ c ∧ c ≤ 'f' then some (c.toNat - 'a'.toNat + 10)
  else if 'A' ≤ c ∧ c ≤ 'F' then some (c.toNat - 'A'.toNat + 10)
  else none

/-- The digit of the value `n`, which is taken modulo 16; letters are small. -/
def hexDigit (n : Nat) : Char :=
  let d := n % 16
  if d < 10 then Char.ofNat ('0'.toNat + d) else Char.ofNat ('a'.toNat + (d - 10))

/-- The last `width` hexadecimal digits of `n`, highest first. -/
def hexDigits : (width : Nat) → (n : Nat) → List Char
  | 0, _ => []
  | width + 1, n => hexDigits width (n / 16) ++ [hexDigit n]

/-- A word of 64 bits with all its sixteen digits. -/
def hex64 (w : UInt64) : String :=
  String.ofList (hexDigits 16 w.toNat)

/-- The digit of a value reads back as that value. -/
theorem hexValue?_hexDigit : ∀ n : Nat, n < 16 → hexValue? (hexDigit n) = some n := by
  decide

@[simp] theorem length_hexDigits (width n : Nat) : (hexDigits width n).length = width := by
  induction width generalizing n with
  | zero => rfl
  | succ w ih => simp [hexDigits, ih]

example : hex64 0xaf63dc4c8601ec8c = "af63dc4c8601ec8c" := by decide

end Rendition.Text

import Mathlib.Data.String.Basic

/-!
# Rendition.Proofs.Text.Utf8

The order of texts is that of their bytes in UTF-8 (`octets_lt_iff`). A character that is ahead of
another one has the smaller byte where their bytes first differ, and no character's bytes open those
of another one, so it stays ahead whatever follows (`encoded_append_lt`).
-/

namespace Rendition.Text

/-- The bytes of a text in UTF-8. -/
def octets (s : String) : List Nat :=
  s.toUTF8.data.toList.map UInt8.toNat

/-- The bytes of the character with a number: its digits in base 64, each with its mark. The mark of
the first one says how many follow. -/
def encoded (v : Nat) : List Nat :=
  if v ≤ 0x7f then [v]
  else if v ≤ 0x7ff then [v / 64 + 192, v % 64 + 128]
  else if v ≤ 0xffff then [v / 64 / 64 + 224, v / 64 % 64 + 128, v % 64 + 128]
  else [v / 64 / 64 / 64 + 240, v / 64 / 64 % 64 + 128, v / 64 % 64 + 128, v % 64 + 128]

theorem char_toNat_lt (c : Char) : c.toNat < 0x110000 := by
  rcases c.valid with h | ⟨-, h⟩
  · exact Nat.lt_trans h (by decide)
  · exact h

theorem map_utf8EncodeChar (c : Char) :
    (String.utf8EncodeChar c).map UInt8.toNat = encoded c.toNat := by
  have hc : c.val.toNat < 0x110000 := char_toNat_lt c
  unfold String.utf8EncodeChar encoded Char.toNat
  generalize c.val.toNat = v at hc
  dsimp only
  split_ifs <;> simp [-Nat.reduceMod] <;> omega

/-- The bytes of a text are those of its characters. -/
theorem octets_eq_flatMap (s : String) : octets s = s.toList.flatMap (encoded ·.toNat) := by
  have hdata : s.toUTF8.data.toList = s.toList.flatMap String.utf8EncodeChar := by
    rw [String.toUTF8, ← String.utf8Encode_toList, List.utf8Encode, List.data_toByteArray]
  rw [octets, hdata, List.map_flatMap]
  simp only [map_utf8EncodeChar]

theorem encoded_ne_nil (v : Nat) : encoded v ≠ [] := by
  unfold encoded
  split_ifs <;> simp

/-- Of two characters the smaller one is ahead, whatever follows them. -/
theorem encoded_append_lt {m n : Nat} (h : m < n) (hn : n < 0x110000) (s t : List Nat) :
    encoded m ++ s < encoded n ++ t := by
  -- The numbers in base 64, with the first digit in which they differ.
  have hdigit : m / 64 / 64 / 64 < n / 64 / 64 / 64 ∨
      m / 64 / 64 / 64 = n / 64 / 64 / 64 ∧ m / 64 / 64 % 64 < n / 64 / 64 % 64 ∨
      m / 64 / 64 = n / 64 / 64 ∧ m / 64 % 64 < n / 64 % 64 ∨
      m / 64 = n / 64 ∧ m % 64 < n % 64 := by omega
  unfold encoded
  split_ifs <;> simp only [List.cons_append, List.nil_append, List.cons_lt_cons_iff] <;>
    rcases hdigit with hd | hd | hd | hd <;> omega

theorem flatMap_encoded_lt : ∀ {l m : List Char}, l < m →
    l.flatMap (encoded ·.toNat) < m.flatMap (encoded ·.toNat)
  | _, [], h => absurd h (List.not_lt_nil _)
  | [], d :: m, _ => by
      obtain ⟨byte, bytes, hbytes⟩ := List.exists_cons_of_ne_nil (encoded_ne_nil d.toNat)
      rw [List.flatMap_cons, hbytes]
      exact List.nil_lt_cons _ _
  | c :: l, d :: m, h => by
      rw [List.flatMap_cons, List.flatMap_cons]
      rcases List.cons_lt_cons_iff.1 h with hcd | ⟨rfl, hlm⟩
      · exact encoded_append_lt hcd (char_toNat_lt d) _ _
      · exact List.append_left_lt (flatMap_encoded_lt hlm)

theorem octets_lt_of_lt {s t : String} (h : s < t) : octets s < octets t := by
  rw [octets_eq_flatMap, octets_eq_flatMap]
  exact flatMap_encoded_lt (String.lt_iff_toList_lt.1 h)

/-- Texts are in the order of their bytes. -/
theorem octets_lt_iff {s t : String} : octets s < octets t ↔ s < t := by
  refine ⟨fun h => ?_, octets_lt_of_lt⟩
  rcases lt_trichotomy s t with hst | rfl | hts
  · exact hst
  · exact absurd h (lt_irrefl _)
  · exact absurd h (octets_lt_of_lt hts).asymm

end Rendition.Text

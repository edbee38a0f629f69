/-!
# Rendition.Text.Blank

The white space of Unicode (the property `White_Space`), which is wider than the four characters of
a JSON document: it has the line and paragraph separators, the no-break spaces and the ideographic
space, and lacks the zero-width space.
-/

namespace Rendition.Text

/-- The ranges of the property `White_Space`, ends included. -/
def blankRanges : List (Nat × Nat) :=
  [(0x09, 0x0D), (0x20, 0x20), (0x85, 0x85), (0xA0, 0xA0), (0x1680, 0x1680), (0x2000, 0x200A),
    (0x2028, 0x2029), (0x202F, 0x202F), (0x205F, 0x205F), (0x3000, 0x3000)]

/-- Does `c` have the property `White_Space`? -/
def isBlank (c : Char) : Bool :=
  blankRanges.any fun (low, high) => low ≤ c.toNat && c.toNat ≤ high

/-- Does `s` hold nothing but white space? -/
def isBlankText (s : String) : Bool :=
  s.toList.all isBlank

/-- `s` without the white space at both ends. -/
def trimBlanks (s : String) : String :=
  String.ofList ((s.toList.dropWhile isBlank).reverse.dropWhile isBlank).reverse

/-- The blanks of ASCII that core knows are among them. -/
theorem isBlank_of_isWhitespace {c : Char} (h : c.isWhitespace = true) : isBlank c = true := by
  simp only [Char.isWhitespace, Bool.or_eq_true, decide_eq_true_eq] at h
  rcases h with ((rfl | rfl) | rfl) | rfl <;> decide

example : isBlank '\u3000' = true ∧ isBlank '\u00a0' = true ∧ isBlank '\u200b' = false := by decide

end Rendition.Text

/-!
# Rendition.Text.Case

Letter case of ASCII. Extensions are compared without regard to it, and every character outside
`A`–`Z` and `a`–`z` is left alone, so a text outside ASCII equals only itself.
-/

namespace Rendition.Text

/-- `s` with the letters `A`–`Z` replaced by `a`–`z`. -/
def lower (s : String) : String :=
  String.ofList (s.toList.map Char.toLower)

/-- Equality up to the case of ASCII letters. -/
def sameLetters (a b : String) : Bool :=
  lower a == lower b

@[simp] theorem toList_lower (s : String) : (lower s).toList = s.toList.map Char.toLower := by
  simp [lower]

theorem sameLetters_iff {a b : String} : sameLetters a b = true ↔ lower a = lower b := by
  simp [sameLetters]

@[simp] theorem sameLetters_refl (a : String) : sameLetters a a = true := by
  simp [sameLetters]

end Rendition.Text

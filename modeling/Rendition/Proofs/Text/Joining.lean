import Rendition.Text.Pieces

/-!
# Rendition.Proofs.Text.Joining

How cutting and joining texts go together with appending them. A list of parts can be joined in two
goes (`joined_joined`), and cutting a joined text gives back the parts that hold no separator
(`pieces_joined_cons`), whatever the first part holds. `cutLast` answers the one way to write a text
around its last separator.
-/

namespace Rendition.Text

variable {sep : Char}

/-! ### Joining -/

/-- Joining is the library's intercalation with a separator of one character. -/
theorem joined_eq_intercalate (sep : Char) (parts : List String) :
    joined sep parts = (String.singleton sep).intercalate parts := by
  apply String.toList_injective
  simp [joined, String.toList_intercalate]

@[simp] theorem joined_singleton (sep : Char) (part : String) : joined sep [part] = part := by
  simp [joined_eq_intercalate]

theorem joined_append {front back : List String} (hfront : front ≠ []) (hback : back ≠ []) :
    joined sep (front ++ back) = joined sep front ++ String.singleton sep ++ joined sep back := by
  simp only [joined_eq_intercalate]
  exact String.intercalate_append_of_ne_nil hfront hback

theorem joined_cons {part : String} {rest : List String} (h : rest ≠ []) :
    joined sep (part :: rest) = part ++ String.singleton sep ++ joined sep rest := by
  have hjoin : joined sep ([part] ++ rest) = joined sep [part] ++ String.singleton sep
      ++ joined sep rest := joined_append (by simp) h
  simpa using hjoin

/-- The parts in front can be joined first. -/
theorem joined_joined {front : List String} (hfront : front ≠ []) (back : List String) :
    joined sep (joined sep front :: back) = joined sep (front ++ back) := by
  cases back with
  | nil => simp
  | cons part rest => rw [joined_cons (by simp), joined_append hfront (by simp)]

/-- A joined text holds the characters of its parts and separators. -/
theorem mem_toList_joined {c : Char} {parts : List String} (h : c ∈ (joined sep parts).toList) :
    c = sep ∨ ∃ part ∈ parts, c ∈ part.toList := by
  induction parts with
  | nil => simp [joined] at h
  | cons part rest ih =>
      by_cases hrest : rest = []
      · subst hrest
        exact Or.inr ⟨part, by simp, by simpa using h⟩
      · rw [joined_cons hrest] at h
        simp only [String.toList_append, String.toList_singleton, List.mem_append,
          List.mem_singleton] at h
        rcases h with (h | h) | h
        · exact Or.inr ⟨part, by simp, h⟩
        · exact Or.inl h
        · rcases ih h with h | ⟨other, hmem, hc⟩
          · exact Or.inl h
          · exact Or.inr ⟨other, List.mem_cons_of_mem _ hmem, hc⟩

theorem mem_joined_of_mem {c : Char} {part : String} {parts : List String} (hpart : part ∈ parts)
    (hc : c ∈ part.toList) : c ∈ (joined sep parts).toList := by
  induction parts with
  | nil => cases hpart
  | cons first rest ih =>
      by_cases hrest : rest = []
      · subst hrest
        obtain rfl := List.mem_singleton.1 hpart
        simpa using hc
      · rw [joined_cons hrest]
        rcases List.mem_cons.1 hpart with rfl | h
        · simp [hc]
        · simp [ih h]

/-! ### Cutting -/

theorem pieces_ne_nil (sep : Char) (s : String) : pieces sep s ≠ [] := by
  simp [pieces]

theorem not_mem_of_mem_pieces {s piece : String} (h : piece ∈ pieces sep s) :
    sep ∉ piece.toList :=
  fun hc => (mem_of_mem_pieces h hc).2 rfl

/-- Only the first part of a joined text is cut further when the others hold no separator. -/
theorem pieces_joined_cons {first : String} {rest : List String}
    (h : ∀ part ∈ rest, sep ∉ part.toList) :
    pieces sep (joined sep (first :: rest)) = pieces sep first ++ rest := by
  have hne : pieces sep first ++ rest ≠ [] := by simp [pieces_ne_nil]
  have hfree : ∀ part ∈ pieces sep first ++ rest, sep ∉ part.toList := by
    intro part hpart
    rcases List.mem_append.1 hpart with hpart | hpart
    · exact not_mem_of_mem_pieces hpart
    · exact h part hpart
  calc pieces sep (joined sep (first :: rest))
      = pieces sep (joined sep (joined sep (pieces sep first) :: rest)) := by rw [joined_pieces]
    _ = pieces sep (joined sep (pieces sep first ++ rest)) := by
        rw [joined_joined (pieces_ne_nil sep first)]
    _ = pieces sep first ++ rest := pieces_joined hne hfree

/-- The parts behind the first are determined by their number and the joined text, and so is the
first. -/
theorem joined_cons_inj {first first' : String} {rest rest' : List String}
    (h : ∀ part ∈ rest, sep ∉ part.toList) (h' : ∀ part ∈ rest', sep ∉ part.toList)
    (hlen : rest.length = rest'.length)
    (heq : joined sep (first :: rest) = joined sep (first' :: rest')) :
    first = first' ∧ rest = rest' := by
  have hpieces : pieces sep first ++ rest = pieces sep first' ++ rest' := by
    rw [← pieces_joined_cons h, ← pieces_joined_cons h', heq]
  obtain ⟨hfirst, hrest⟩ := List.append_inj' hpieces hlen
  exact ⟨by rw [← joined_pieces sep first, hfirst, joined_pieces], hrest⟩

/-! ### The last separator -/

theorem cutLast_eq_some {s before after : String} :
    cutLast sep s = some (before, after) ↔
      s = before ++ String.singleton sep ++ after ∧ sep ∉ after.toList := by
  have hchars : ∀ b a : List Char, cutLastChars sep s.toList = some (b, a) ↔
      s.toList = b ++ sep :: a ∧ sep ∉ a := fun b a => cutLastChars_eq_some
  constructor
  · intro h
    obtain ⟨⟨b, a⟩, hcut, hba⟩ := Option.map_eq_some_iff.1 h
    obtain ⟨hs, hfree⟩ := (hchars b a).1 hcut
    obtain ⟨rfl, rfl⟩ := Prod.mk.inj hba
    refine ⟨?_, by simpa using hfree⟩
    apply String.toList_injective
    simp [hs]
  · rintro ⟨rfl, hfree⟩
    have hcut := (hchars before.toList after.toList).2 ⟨by simp, hfree⟩
    simp only [cutLast, hcut, Option.map_some, String.ofList_toList]

theorem cutLast_eq_none {s : String} : cutLast sep s = none ↔ sep ∉ s.toList := by
  simp [cutLast, cutLastChars_eq_none]

/-- The last part behind a separator is cut off a joined text. -/
theorem cutLast_joined_concat {front : List String} {last : String} (hfront : front ≠ [])
    (hlast : sep ∉ last.toList) :
    cutLast sep (joined sep (front ++ [last])) = some (joined sep front, last) := by
  rw [cutLast_eq_some]
  exact ⟨by simp [joined_append hfront], hlast⟩

end Rendition.Text

/-!
# Rendition.Text.Pieces

Cutting a text at a separator character. `pieces` cuts at every separator and `joined` puts the
pieces back; the two are inverse to each other, so nothing is lost by cutting and a text has one
list of pieces only. `cutLast` cuts at the last separator, which leaves it absent from the second
part. `opensWith` and `after?` look at the characters in front.
-/

namespace Rendition.Text

/-- The pieces of `s` between the separators, in order. There is one piece more than there are
separators, so the pieces of the empty text are one empty piece. -/
def pieces (sep : Char) (s : String) : List String :=
  (s.toList.splitOn sep).map String.ofList

/-- The texts of `parts` in order with one separator between two neighbours. -/
def joined (sep : Char) (parts : List String) : String :=
  String.ofList ([sep].intercalate (parts.map String.toList))

/-- The pieces joined again are the text. -/
theorem joined_pieces (sep : Char) (s : String) : joined sep (pieces sep s) = s := by
  have key : (List.map String.ofList (s.toList.splitOn sep)).map String.toList
      = s.toList.splitOn sep := by
    simp [List.map_map, Function.comp_def]
  simp [joined, pieces, key, List.intercalate_splitOn]

/-- Cutting joined parts gives the parts back, when no part holds the separator. -/
theorem pieces_joined {sep : Char} {parts : List String} (hne : parts ≠ [])
    (h : ∀ p ∈ parts, sep ∉ p.toList) : pieces sep (joined sep parts) = parts := by
  have key : ([sep].intercalate (parts.map String.toList)).splitOn sep
      = parts.map String.toList := by
    apply List.splitOn_intercalate
    · intro l hl
      obtain ⟨p, hp, rfl⟩ := List.mem_map.1 hl
      exact h p hp
    · simpa using hne
  simp [pieces, joined, key, List.map_map, Function.comp_def]

/-- A character of a piece is a character of the list, and no separator. -/
theorem mem_of_mem_splitOn {sep c : Char} {l piece : List Char} (hp : piece ∈ l.splitOn sep)
    (hc : c ∈ piece) : c ∈ l ∧ c ≠ sep := by
  induction l generalizing piece with
  | nil =>
      have : piece = [] := by simpa [List.splitOn] using hp
      simp [this] at hc
  | cons x xs ih =>
      unfold List.splitOn at hp
      rw [List.splitOnP_cons_eq_if_modifyHead] at hp
      split at hp
      · rcases List.mem_cons.1 hp with h | h
        · simp [h] at hc
        · have := ih h hc
          exact ⟨List.mem_cons_of_mem _ this.1, this.2⟩
      · next hx =>
          change piece ∈ List.modifyHead (List.cons x) (xs.splitOn sep) at hp
          cases hs : xs.splitOn sep with
          | nil => simp [hs] at hp
          | cons first others =>
              rw [hs] at hp ih
              rcases List.mem_cons.1 (by simpa using hp) with h | h
              · rw [h] at hc
                rcases List.mem_cons.1 hc with rfl | hc
                · exact ⟨by simp, by simpa using hx⟩
                · have := ih (List.mem_cons_self ..) hc
                  exact ⟨List.mem_cons_of_mem _ this.1, this.2⟩
              · have := ih (List.mem_cons_of_mem _ h) hc
                exact ⟨List.mem_cons_of_mem _ this.1, this.2⟩

/-- A character of a piece is a character of the text, and no separator. -/
theorem mem_of_mem_pieces {sep c : Char} {s piece : String} (hp : piece ∈ pieces sep s)
    (hc : c ∈ piece.toList) : c ∈ s.toList ∧ c ≠ sep := by
  obtain ⟨l, hl, rfl⟩ := List.mem_map.1 hp
  exact mem_of_mem_splitOn hl (by simpa using hc)

/-- The text before and after the last `sep` in a list of characters, if there is one. -/
def cutLastChars (sep : Char) : List Char → Option (List Char × List Char)
  | [] => none
  | c :: rest =>
    match cutLastChars sep rest with
    | some (before, after) => some (c :: before, after)
    | none => if c = sep then some ([], rest) else none

theorem cutLastChars_eq_none {sep : Char} {l : List Char} :
    cutLastChars sep l = none ↔ sep ∉ l := by
  induction l with
  | nil => simp [cutLastChars]
  | cons c rest ih =>
      unfold cutLastChars
      cases h : cutLastChars sep rest with
      | some p =>
          have : sep ∈ rest := by
            by_cases hm : sep ∈ rest
            · exact hm
            · rw [ih.2 hm] at h; cases h
          simp [this]
      | none =>
          have hn : sep ∉ rest := ih.1 h
          by_cases hc : c = sep
          · simp [hc]
          · have hc' : ¬ sep = c := fun e => hc e.symm
            simp [hc, hc', hn]

theorem cutLastChars_append {sep : Char} {after : List Char} (h : sep ∉ after) :
    ∀ before : List Char, cutLastChars sep (before ++ sep :: after) = some (before, after)
  | [] => by
      have hn : cutLastChars sep after = none := cutLastChars_eq_none.2 h
      simp [cutLastChars, hn]
  | c :: before => by simp [cutLastChars, cutLastChars_append h before]

theorem eq_of_cutLastChars {sep : Char} {l : List Char} {p : List Char × List Char}
    (h : cutLastChars sep l = some p) : l = p.1 ++ sep :: p.2 ∧ sep ∉ p.2 := by
  induction l generalizing p with
  | nil => simp [cutLastChars] at h
  | cons c rest ih =>
      unfold cutLastChars at h
      split at h
      · next before after hr =>
          obtain rfl := Option.some.inj h
          have hrest := ih hr
          exact ⟨by rw [hrest.1]; rfl, hrest.2⟩
      · next hr =>
          split at h
          · next hc =>
              obtain rfl := Option.some.inj h
              exact ⟨by simp [hc], cutLastChars_eq_none.1 hr⟩
          · cases h

/-- What `cutLastChars` answers: the only way to write the list with a separator that none
follows. -/
theorem cutLastChars_eq_some {sep : Char} {l before after : List Char} :
    cutLastChars sep l = some (before, after) ↔ l = before ++ sep :: after ∧ sep ∉ after :=
  ⟨eq_of_cutLastChars, fun ⟨e, h⟩ => e ▸ cutLastChars_append h before⟩

/-- The text before and after the last `sep` in `s`, if there is one. -/
def cutLast (sep : Char) (s : String) : Option (String × String) :=
  (cutLastChars sep s.toList).map fun (before, after) => (String.ofList before, String.ofList after)

/-! ### Fronts -/

/-- Does a text open with another one? -/
def opensWith (front s : String) : Bool :=
  front.toList.isPrefixOf s.toList

/-- What follows a text at the front of another one, if it stands there. -/
def after? (front s : String) : Option String :=
  if opensWith front s then some (String.ofList (s.toList.drop front.toList.length)) else none

/-- What follows a text in front of another one is that other one. -/
@[simp] theorem after?_append (front s : String) : after? front (front ++ s) = some s := by
  simp [after?, opensWith]

end Rendition.Text

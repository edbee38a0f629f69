import Rendition.Proofs.Cuts
import Rendition.RequestPath

/-!
# Rendition.Proofs.Paths

Request paths as texts. The text of a path reads back as the path (`parse_text`), so a path that was
found beside another one (`sibling`) can be handed to anything that reads paths. `nameOf` is the
file name in any text, normal or not, and agrees with the file name of a request path.
-/

namespace Rendition

open Text

namespace RequestPath

/-! ### Directory and file name -/

theorem segments_eq (p : RequestPath) : p.segments = p.segments.dropLast ++ [p.fileName] :=
  (List.dropLast_concat_getLast p.ne_nil).symm

private theorem joined_concat (last : String) : ∀ front : List String,
    joined '/' (front ++ [last]) = String.join (front.map (· ++ "/")) ++ last
  | [] => by simp [String.join]
  | first :: rest => by
      rw [List.cons_append, joined_cons (by simp), joined_concat last rest]
      simp [String.join_cons, String.append_assoc]

theorem text_eq (p : RequestPath) : p.text = p.dir ++ p.fileName := by
  rw [text, p.segments_eq, joined_concat, dir]

theorem not_mem_slash_fileName (p : RequestPath) : '/' ∉ p.fileName.toList :=
  p.isSegment_fileName.no_slash

/-! ### Reading the text of a path -/

/-- A text without backslashes keeps its slashes. -/
theorem turnSlashes_eq_self {s : String} (h : '\\' ∉ s.toList) : turnSlashes s = s := by
  apply String.toList_injective
  rw [toList_turnSlashes]
  refine (List.map_congr_left fun c hc => ?_).trans (List.map_id _)
  have hne : c ≠ '\\' := by
    rintro rfl
    exact h hc
  exact if_neg hne

private theorem mem_text {p : RequestPath} {c : Char} (h : c ∈ p.text.toList) :
    c = '/' ∨ ∃ s ∈ p.segments, c ∈ s.toList :=
  mem_toList_joined h

theorem not_mem_nul_text (p : RequestPath) : '\x00' ∉ p.text.toList := by
  intro h
  rcases mem_text h with h | ⟨s, hs, hc⟩
  · exact absurd h (by decide)
  · exact (p.isSegment s hs).no_nul hc

theorem not_mem_backslash_text (p : RequestPath) : '\\' ∉ p.text.toList := by
  intro h
  rcases mem_text h with h | ⟨s, hs, hc⟩
  · exact absurd h (by decide)
  · exact (p.isSegment s hs).no_backslash hc

/-- The pieces of the text of a path are its segments. -/
theorem rawSegments_text (p : RequestPath) : rawSegments p.text = p.segments := by
  rw [rawSegments, turnSlashes_eq_self p.not_mem_backslash_text]
  exact pieces_joined p.ne_nil fun s hs => (p.isSegment s hs).no_slash

/-- The text of a path does not open with a slash. -/
theorem head?_text_ne (p : RequestPath) : p.text.toList.head? ≠ some '/' := by
  obtain ⟨first, rest, hsegments⟩ := List.exists_cons_of_ne_nil p.ne_nil
  have hfirst := p.isSegment first (by simp [hsegments])
  obtain ⟨c, cs, hc⟩ := List.exists_cons_of_ne_nil (mt String.toList_eq_nil_iff.1 hfirst.ne_empty)
  have hslash : c ≠ '/' := fun h => hfirst.no_slash (by simp [hc, h])
  by_cases hrest : rest = []
  · simp [text, hsegments, hrest, hc, hslash]
  · rw [text, hsegments, joined_cons hrest]
    simp [hc, hslash]

theorem not_opensTwice_text (p : RequestPath) : opensTwice (turnSlashes p.text) = false := by
  rw [turnSlashes_eq_self p.not_mem_backslash_text]
  unfold opensTwice
  split
  · next heq => exact absurd (by rw [heq]; rfl) p.head?_text_ne
  · rfl

/-- The text of a path reads as that path. -/
theorem parse_text (p : RequestPath) : parse p.text = .ok p := by
  have hparent : ".." ∉ rawSegments p.text := by
    rw [p.rawSegments_text]
    exact fun h => (p.isSegment _ h).ne_dots rfl
  have hfilter : (rawSegments p.text).filter isNamed = p.segments := by
    rw [p.rawSegments_text, List.filter_eq_self]
    intro s hs
    simp [isNamed, (p.isSegment s hs).ne_empty, (p.isSegment s hs).ne_dot]
  have hne : (rawSegments p.text).filter isNamed ≠ [] := by rw [hfilter]; exact p.ne_nil
  unfold parse
  split
  · next h => exact absurd h p.not_mem_nul_text
  · split
    · next h => exact absurd h (by simp [p.not_opensTwice_text])
    · refine congrArg Except.ok ?_
      apply RequestPath.ext
      dsimp only
      exact hfilter

theorem ofRequest_text (p : RequestPath) : ofRequest p.text = .ok p := by
  rw [ofRequest, p.parse_text]
  rfl

theorem text_injective {p q : RequestPath} (h : p.text = q.text) : p = q :=
  Except.ok.inj (p.parse_text.symm.trans (h ▸ q.parse_text))

/-! ### Paths beside a path -/

/-- The path of a name in the directory of a path. -/
def sibling (p : RequestPath) (name : String) (h : IsSegment name) : RequestPath where
  segments := p.segments.dropLast ++ [name]
  ne_nil := by simp
  isSegment s hs := by
    rcases List.mem_append.1 hs with hs | hs
    · exact p.isSegment s (List.dropLast_subset _ hs)
    · exact List.mem_singleton.1 hs ▸ h

@[simp] theorem fileName_sibling (p : RequestPath) {name : String} (h : IsSegment name) :
    (p.sibling name h).fileName = name := by
  simp [sibling, fileName]

@[simp] theorem dir_sibling (p : RequestPath) {name : String} (h : IsSegment name) :
    (p.sibling name h).dir = p.dir := by
  simp [sibling, dir]

theorem text_sibling (p : RequestPath) {name : String} (h : IsSegment name) :
    (p.sibling name h).text = p.dir ++ name := by
  rw [text_eq, dir_sibling, fileName_sibling]

end RequestPath

/-! ### Paths at the top -/

instance (s : String) : Decidable (IsSegment s) :=
  decidable_of_iff (s ≠ "" ∧ s ≠ "." ∧ s ≠ ".." ∧ '/' ∉ s.toList ∧ '\\' ∉ s.toList ∧
      '\x00' ∉ s.toList)
    ⟨fun ⟨a, b, c, d, e, f⟩ => ⟨a, b, c, d, e, f⟩, fun ⟨a, b, c, d, e, f⟩ => ⟨a, b, c, d, e, f⟩⟩

/-- The path of a file at the top. -/
def RequestPath.single (name : String) (h : IsSegment name) : RequestPath where
  segments := [name]
  ne_nil := by simp
  isSegment s hs := List.mem_singleton.1 hs ▸ h

@[simp] theorem RequestPath.text_single (name : String) (h : IsSegment name) :
    (RequestPath.single name h).text = name :=
  joined_singleton '/' name

theorem RequestPath.ofRequest_single (name : String) (h : IsSegment name) :
    ofRequest name = .ok (single name h) := by
  have hread := (single name h).ofRequest_text
  rwa [text_single] at hread

/-! ### Names of files beside a path -/

/-- A base and an extension make a segment when their characters come from segments. -/
theorem isSegment_of_parts {base ext : String} (hbase : base ≠ "") (hext : ext ≠ "")
    (hchar : ∀ c ∈ base.toList ++ ext.toList, c ≠ '/' ∧ c ≠ '\\' ∧ c ≠ '\x00') :
    IsSegment (base ++ "." ++ ext) := by
  have hchars : (base ++ "." ++ ext).toList = base.toList ++ '.' :: ext.toList := by simp
  have hbase' : base.toList ≠ [] := mt String.toList_eq_nil_iff.1 hbase
  have hext' : ext.toList ≠ [] := mt String.toList_eq_nil_iff.1 hext
  have hlength : 3 ≤ (base ++ "." ++ ext).toList.length := by
    have := List.length_pos_iff.2 hbase'
    have := List.length_pos_iff.2 hext'
    simp only [hchars, List.length_append, List.length_cons]
    omega
  have hfree : ∀ c : Char, c ≠ '.' → (∀ d ∈ base.toList ++ ext.toList, d ≠ c) →
      c ∉ (base ++ "." ++ ext).toList := by
    intro c hdot hne hc
    rw [hchars] at hc
    rcases List.mem_append.1 hc with hc | hc
    · exact hne c (List.mem_append_left _ hc) rfl
    · rcases List.mem_cons.1 hc with hc | hc
      · exact hdot hc
      · exact hne c (List.mem_append_right _ hc) rfl
  refine ⟨?_, ?_, ?_, ?_, ?_, ?_⟩
  · rintro h; simp [h] at hlength
  · rintro h; simp [h] at hlength
  · rintro h; simp [h] at hlength
  · exact hfree '/' (by decide) fun d hd => (hchar d hd).1
  · exact hfree '\\' (by decide) fun d hd => (hchar d hd).2.1
  · exact hfree '\x00' (by decide) fun d hd => (hchar d hd).2.2

/-- What follows the last slash of a text. -/
def nameOf (path : String) : String :=
  match cutLast '/' path with
  | some (_, name) => name
  | none => path

theorem nameOf_append {dir name : String} (hdir : dir = "" ∨ ∃ front, dir = front ++ "/")
    (hname : '/' ∉ name.toList) : nameOf (dir ++ name) = name := by
  rcases hdir with rfl | ⟨front, rfl⟩
  · have hcut : cutLast '/' name = none := cutLast_eq_none.2 hname
    simp [nameOf, hcut]
  · have hcut : cutLast '/' (front ++ "/" ++ name) = some (front, name) :=
      cutLast_eq_some.2 ⟨rfl, hname⟩
    simp [nameOf, hcut]

theorem RequestPath.dir_eq (p : RequestPath) : p.dir = "" ∨ ∃ front, p.dir = front ++ "/" := by
  rw [dir]
  rcases List.eq_nil_or_concat p.segments.dropLast with h | ⟨front, last, h⟩
  · exact Or.inl (by simp [h, String.join])
  · refine Or.inr ⟨String.join (front.map (· ++ "/")) ++ last, ?_⟩
    rw [h]
    simp [String.append_assoc]

theorem RequestPath.nameOf_dir_append (p : RequestPath) {name : String} (h : '/' ∉ name.toList) :
    nameOf (p.dir ++ name) = name :=
  nameOf_append p.dir_eq h

@[simp] theorem RequestPath.nameOf_text (p : RequestPath) : nameOf p.text = p.fileName := by
  rw [p.text_eq]
  exact p.nameOf_dir_append p.not_mem_slash_fileName

end Rendition

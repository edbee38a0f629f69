import Rendition.Proofs.Paths

/-!
# Rendition.Proofs.NormalForm

Which texts are request paths, and which path each of them is. A text is read as segments with
slashes or backslashes between them, and `Separated` says what its segments are without cutting it:
every text has exactly one such list (`Separated.rawSegments_eq`, `exists_separated`). Whether a
text is a path depends on its segments, on whether it holds a NUL, and on whether two separators
open it (`Admissible`).

`path_normal_form` says which texts are paths, which error each other one meets, and what a path
consists of. The paths are the texts that are read as themselves.
-/

namespace Rendition

open Text

/-! ### Segments of a text -/

/-- Segments end at slashes and backslashes. -/
def IsSeparator (c : Char) : Prop :=
  c = '/' ∨ c = '\\'

instance (c : Char) : Decidable (IsSeparator c) :=
  inferInstanceAs (Decidable (_ ∨ _))

/-- A text consists of segments without separators, with a separator between two neighbours. -/
inductive Separated : String → List String → Prop
  | last {segment : String} (hfree : ∀ c ∈ segment.toList, ¬ IsSeparator c) :
      Separated segment [segment]
  | cons {segment rest : String} {c : Char} {segments : List String}
      (hfree : ∀ d ∈ segment.toList, ¬ IsSeparator d) (hc : IsSeparator c)
      (hrest : Separated rest segments) :
      Separated (segment ++ String.singleton c ++ rest) (segment :: segments)

theorem turnSlashes_append (s t : String) :
    turnSlashes (s ++ t) = turnSlashes s ++ turnSlashes t := by
  apply String.toList_injective
  simp

theorem turnSlashes_singleton {c : Char} (h : IsSeparator c) :
    turnSlashes (String.singleton c) = String.singleton '/' := by
  rcases h with rfl | rfl <;> rfl

theorem pieces_eq_singleton {s : String} (h : '/' ∉ s.toList) : pieces '/' s = [s] := by
  have hcut : pieces '/' (joined '/' [s]) = [s] :=
    pieces_joined (List.cons_ne_nil s []) (by simpa using h)
  rwa [joined_singleton] at hcut

namespace Separated

variable {raw : String} {segments : List String}

/-- The segments of a text are the ones that it is cut into, so there is one list of them. -/
theorem rawSegments_eq (h : Separated raw segments) : rawSegments raw = segments := by
  induction h with
  | @last segment hfree =>
      rw [rawSegments, RequestPath.turnSlashes_eq_self fun hc => hfree _ hc (Or.inr rfl)]
      exact pieces_eq_singleton fun hc => hfree _ hc (Or.inl rfl)
  | @cons segment rest c segments hfree hc hrest ih =>
      have hturned : turnSlashes (segment ++ String.singleton c ++ rest)
          = joined '/' (segment :: rawSegments rest) := by
        rw [turnSlashes_append, turnSlashes_append, turnSlashes_singleton hc,
          RequestPath.turnSlashes_eq_self fun hd => hfree _ hd (Or.inr rfl), rawSegments,
          joined_cons (pieces_ne_nil '/' _), joined_pieces]
      have hrests : ∀ piece ∈ rawSegments rest, '/' ∉ piece.toList := fun piece hpiece =>
        not_mem_of_mem_pieces hpiece
      rw [rawSegments, hturned, pieces_joined_cons hrests,
        pieces_eq_singleton fun hd => hfree _ hd (Or.inl rfl), ih]
      rfl

/-- A character in front that is no separator belongs to the first segment. -/
theorem exists_push {c : Char} (hc : ¬ IsSeparator c) (h : Separated raw segments) :
    ∃ others, Separated (String.singleton c ++ raw) others := by
  have hlonger : ∀ {segment : String}, (∀ d ∈ segment.toList, ¬ IsSeparator d) →
      ∀ d ∈ (String.singleton c ++ segment).toList, ¬ IsSeparator d := by
    intro segment hfree d hd
    rcases List.mem_cons.1 (by simpa using hd) with rfl | hd
    · exact hc
    · exact hfree d hd
  cases h with
  | last hfree => exact ⟨_, .last (hlonger hfree)⟩
  | @cons segment rest d segments hfree hsep hrest =>
      refine ⟨(String.singleton c ++ segment) :: segments, ?_⟩
      rw [← String.append_assoc, ← String.append_assoc]
      exact .cons (hlonger hfree) hsep hrest

end Separated

theorem exists_separated (raw : String) : ∃ segments, Separated raw segments := by
  obtain ⟨l, rfl⟩ : ∃ l, raw = String.ofList l := ⟨raw.toList, by simp⟩
  induction l with
  | nil => exact ⟨[""], .last (by simp)⟩
  | cons c rest ih =>
      obtain ⟨segments, hrest⟩ := ih
      rw [String.ofList_cons]
      by_cases hc : IsSeparator c
      · have hempty : Separated ("" ++ String.singleton c ++ String.ofList rest) ("" :: segments) :=
          .cons (by simp) hc hrest
        exact ⟨_, by simpa using hempty⟩
      · exact hrest.exists_push hc

/-! ### Reading -/

/-- A text with two separators in front. -/
def IsAbsolute (raw : String) : Prop :=
  ∃ c d rest, IsSeparator c ∧ IsSeparator d ∧
    raw = String.singleton c ++ String.singleton d ++ rest

/-- A text that is not refused: what it names, if anything, is below the root. -/
structure Admissible (raw : String) (segments : List String) : Prop where
  no_nul : '\x00' ∉ raw.toList
  relative : ¬ IsAbsolute raw
  no_parent : ".." ∉ segments

/-- A segment that names an entry of the directory it stands behind. -/
def NamesEntry (segment : String) : Prop :=
  segment ≠ "" ∧ segment ≠ "."

instance (segment : String) : Decidable (NamesEntry segment) :=
  inferInstanceAs (Decidable (_ ∧ _))

/-- What a text is read as. Of the ways to refuse it a NUL comes first, and a parent last. -/
inductive Reads (raw : String) (segments : List String) : Except PathFault RequestPath → Prop
  | nul (h : '\x00' ∈ raw.toList) : Reads raw segments (.error .nul)
  | absolute (hnul : '\x00' ∉ raw.toList) (h : IsAbsolute raw) :
      Reads raw segments (.error (.absolute raw))
  | parent (hnul : '\x00' ∉ raw.toList) (hrelative : ¬ IsAbsolute raw) (h : ".." ∈ segments) :
      Reads raw segments (.error (.parent raw))
  | empty (hadmissible : Admissible raw segments) (h : ∀ s ∈ segments, ¬ NamesEntry s) :
      Reads raw segments (.error .empty)
  | path {p : RequestPath} (hadmissible : Admissible raw segments)
      (h : p.segments = segments.filter (NamesEntry ·)) : Reads raw segments (.ok p)

theorem opensTwice_turnSlashes_iff {raw : String} :
    opensTwice (turnSlashes raw) = true ↔ IsAbsolute raw := by
  have hturned : ∀ c : Char, (if c = '\\' then '/' else c) = '/' ↔ IsSeparator c := by
    intro c
    by_cases hc : c = '\\' <;> simp [hc, IsSeparator]
  constructor
  · intro h
    unfold opensTwice at h
    split at h
    · next more hopen =>
        rw [toList_turnSlashes] at hopen
        obtain ⟨c, cs, hraw, hc, hcs⟩ := List.map_eq_cons_iff.1 hopen
        obtain ⟨d, rest, rfl, hd, -⟩ := List.map_eq_cons_iff.1 hcs
        refine ⟨c, d, String.ofList rest, (hturned c).1 hc, (hturned d).1 hd, ?_⟩
        apply String.toList_injective
        simp [hraw]
    · cases h
  · rintro ⟨c, d, rest, hc, hd, rfl⟩
    simp [opensTwice, (hturned c).2 hc, (hturned d).2 hd]

/-- A text is read as its segments say. -/
theorem reads_parse {raw : String} {segments : List String} (h : Separated raw segments) :
    Reads raw segments (RequestPath.parse raw) := by
  have hsegments := h.rawSegments_eq
  have hkept : (rawSegments raw).filter isNamed = segments.filter (NamesEntry ·) := by
    rw [hsegments]
    refine List.filter_congr fun s _ => Bool.eq_iff_iff.2 ?_
    rw [decide_eq_true_eq]
    simp [isNamed, NamesEntry]
  unfold RequestPath.parse
  by_cases hnul : '\x00' ∈ raw.toList
  · rw [dif_pos hnul]
    exact .nul hnul
  rw [dif_neg hnul]
  by_cases hopen : opensTwice (turnSlashes raw) = true
  · rw [if_pos hopen]
    exact .absolute hnul (opensTwice_turnSlashes_iff.1 hopen)
  have hrelative : ¬ IsAbsolute raw := mt opensTwice_turnSlashes_iff.2 hopen
  rw [if_neg hopen]
  by_cases hparent : ".." ∈ rawSegments raw
  · rw [dif_pos hparent]
    exact .parent hnul hrelative (hsegments ▸ hparent)
  have hadmissible : Admissible raw segments := ⟨hnul, hrelative, hsegments ▸ hparent⟩
  rw [dif_neg hparent]
  by_cases hnone : (rawSegments raw).filter isNamed = []
  · rw [dif_pos hnone]
    rw [hkept, List.filter_eq_nil_iff] at hnone
    exact .empty hadmissible (by simpa using hnone)
  · rw [dif_neg hnone]
    refine .path hadmissible ?_
    simpa only using hkept

/-- A text is the path of its segments that name something, or it names nothing, or it is
refused. -/
theorem ofRequest_cases {raw : String} {segments : List String} (h : Separated raw segments) :
    (Admissible raw segments ∧ (∃ s ∈ segments, NamesEntry s) ∧
      ∃ p, RequestPath.ofRequest raw = .ok p ∧ p.segments = segments.filter (NamesEntry ·)) ∨
    (Admissible raw segments ∧ (∀ s ∈ segments, ¬ NamesEntry s) ∧
      ∃ d, RequestPath.ofRequest raw = .error (.notFound d)) ∨
    ¬ Admissible raw segments ∧ ∃ d, RequestPath.ofRequest raw = .error (.badPath d) := by
  have hreads := reads_parse h
  unfold RequestPath.ofRequest
  generalize RequestPath.parse raw = outcome at hreads
  cases hreads with
  | nul hnul => exact Or.inr (Or.inr ⟨fun ha => ha.no_nul hnul, _, rfl⟩)
  | absolute _ habsolute => exact Or.inr (Or.inr ⟨fun ha => ha.relative habsolute, _, rfl⟩)
  | parent _ _ hparent => exact Or.inr (Or.inr ⟨fun ha => ha.no_parent hparent, _, rfl⟩)
  | empty hadmissible hnone => exact Or.inr (Or.inl ⟨hadmissible, hnone, _, rfl⟩)
  | @path p hadmissible hp =>
      have hname : p.fileName ∈ segments.filter (NamesEntry ·) :=
        hp ▸ List.getLast_mem p.ne_nil
      obtain ⟨hmem, hnamed⟩ := List.mem_filter.1 hname
      exact Or.inl ⟨hadmissible, ⟨p.fileName, hmem, by simpa using hnamed⟩, p, rfl, hp⟩

/-! ### Names -/

/-- A name has no extension if it has no dot, or only one in front, or if a dot ends it. -/
theorem splitExtension_eq_none {name : String} :
    splitExtension name = none ↔
      '.' ∉ name.toList ∨ (∃ rest, name = "." ++ rest ∧ '.' ∉ rest.toList) ∨
        ∃ front, name = front ++ "." := by
  have hdot : String.singleton '.' = "." := rfl
  cases hcut : cutLast '.' name with
  | none =>
      have hfree := cutLast_eq_none.1 hcut
      simp [splitExtension, hcut, hfree]
  | some parts =>
      obtain ⟨stem, ext⟩ := parts
      obtain ⟨rfl, hfree⟩ := cutLast_eq_some.1 hcut
      -- The cut is the only one with no dot behind it, so a dot in front or at the end is its dot.
      have hunique : ∀ {front back : String}, stem ++ String.singleton '.' ++ ext
          = front ++ "." ++ back → '.' ∉ back.toList → stem = front ∧ ext = back := by
        intro front back heq hback
        rw [← hdot] at heq
        have hother := cutLast_eq_some.2 ⟨heq, hback⟩
        obtain ⟨rfl, rfl⟩ := Prod.mk.inj (Option.some.inj (hcut.symm.trans hother))
        exact ⟨rfl, rfl⟩
      have hnone : splitExtension (stem ++ String.singleton '.' ++ ext) = none ↔
          stem = "" ∨ ext = "" := by
        rw [splitExtension, hcut]
        by_cases hstem : stem = "" <;> by_cases hext : ext = "" <;>
          simp [Option.filter, hstem, hext]
      rw [hnone]
      constructor
      · rintro (rfl | rfl)
        · exact Or.inr (Or.inl ⟨ext, by simp [hdot], hfree⟩)
        · exact Or.inr (Or.inr ⟨stem, by simp [hdot]⟩)
      · rintro (hnodot | ⟨rest, hname, hrest⟩ | ⟨front, hname⟩)
        · exact absurd (by simp) hnodot
        · exact Or.inl (hunique (by simpa using hname) hrest).1
        · exact Or.inr (hunique (by simpa using hname) (by simp)).2

/-! ### The normal form -/

/-- Of the segments that a text consists of, those that name something make up its path, with a
slash between two neighbours; it has a path exactly if it is admissible and has such a segment. An
admissible text without one is answered as a missing file, and any other text is a bad request.
Paths are the texts that are read as themselves.

A path is its directory and the name of a file, which is not empty and holds no slash. Its extension
is what follows the last dot of the name, unless that dot is its first or last character. -/
theorem path_normal_form (raw : String) :
    ∃ segments, Separated raw segments ∧ (∀ others, Separated raw others → others = segments) ∧
      ((∃ p, RequestPath.ofRequest raw = .ok p) ↔
        Admissible raw segments ∧ ∃ s ∈ segments, NamesEntry s) ∧
      ((∃ d, RequestPath.ofRequest raw = .error (.notFound d)) ↔
        Admissible raw segments ∧ ∀ s ∈ segments, ¬ NamesEntry s) ∧
      ((∃ d, RequestPath.ofRequest raw = .error (.badPath d)) ↔ ¬ Admissible raw segments) ∧
      ((∃ source p, RequestPath.ofRequest source = .ok p ∧ p.text = raw) ↔
        ∃ p, RequestPath.ofRequest raw = .ok p ∧ p.text = raw) ∧
      ∀ p, RequestPath.ofRequest raw = .ok p →
        p.text = "/".intercalate (segments.filter (NamesEntry ·)) ∧
        RequestPath.ofRequest p.text = .ok p ∧
        p.text = p.dir ++ p.fileName ∧ (p.dir = "" ∨ ∃ front, p.dir = front ++ "/") ∧
        p.fileName ≠ "" ∧ '/' ∉ p.fileName.toList ∧
        (∀ ext, p.extension = some ext → ∃ stem, splitExtension p.fileName = some (stem, ext) ∧
          p.fileName = stem ++ "." ++ ext ∧ stem ≠ "" ∧ ext ≠ "" ∧ '.' ∉ ext.toList) ∧
        (p.extension = none ↔
          '.' ∉ p.fileName.toList ∨ (∃ rest, p.fileName = "." ++ rest ∧ '.' ∉ rest.toList) ∨
            ∃ front, p.fileName = front ++ ".") := by
  obtain ⟨segments, h⟩ := exists_separated raw
  refine ⟨segments, h, fun others ho => ho.rawSegments_eq.symm.trans h.rawSegments_eq,
    ?_, ?_, ?_, ?_, fun p hp => ⟨?_, p.ofRequest_text, p.text_eq, p.dir_eq,
      p.isSegment_fileName.ne_empty, p.not_mem_slash_fileName, fun ext hext => ?_, ?_⟩⟩
  · rcases ofRequest_cases h with ⟨ha, hn, p, hp, -⟩ | ⟨-, hn, d, hd⟩ | ⟨ha, d, hd⟩
    · simp [hp, ha, hn]
    · simpa [hd] using fun _ => hn
    · simp [hd, ha]
  · rcases ofRequest_cases h with ⟨-, ⟨s, hs, hn⟩, p, hp, -⟩ | ⟨ha, hn, d, hd⟩ | ⟨ha, d, hd⟩
    · simpa [hp] using fun _ => ⟨s, hs, hn⟩
    · simpa [hd, ha] using hn
    · simp [hd, ha]
  · rcases ofRequest_cases h with ⟨ha, -, p, hp, -⟩ | ⟨ha, -, d, hd⟩ | ⟨ha, d, hd⟩
    · simp [hp, ha]
    · simp [hd, ha]
    · simp [hd, ha]
  · constructor
    · rintro ⟨source, p, -, rfl⟩
      exact ⟨p, p.ofRequest_text, rfl⟩
    · rintro ⟨p, hp, htext⟩
      exact ⟨raw, p, hp, htext⟩
  · rcases ofRequest_cases h with ⟨-, -, q, hq, hsegments⟩ | ⟨-, -, d, hd⟩ | ⟨-, d, hd⟩
    · obtain rfl := Except.ok.inj (hq.symm.trans hp)
      rw [RequestPath.text, hsegments, joined_eq_intercalate]
      rfl
    · simp [hd] at hp
    · simp [hd] at hp
  · obtain ⟨⟨stem, _⟩, hsplit, rfl⟩ := Option.map_eq_some_iff.1 hext
    exact ⟨stem, hsplit, splitExtension_eq_some.1 hsplit⟩
  · rw [RequestPath.extension, Option.map_eq_none_iff, splitExtension_eq_none]

example : (RequestPath.ofRequest "\\a//.\\b.png").toOption.map (·.text) = some "a/b.png" := by
  decide

end Rendition

import Rendition.Fallbacks
import Rendition.Proofs.Paths

/-!
# Rendition.Proofs.Levels

The paths beside a request path at which its sources are looked for, and how such a path looks from
outside. With plain extensions the path of a base is again a request path (`exists_level`), so it
can be cut further. A name whose stem ends in a directive behind a base is the name of a derivative
(`namesDerivative`); the path of every base that is itself followed back to a shorter one is of that
kind (`namesDerivative_level`).
-/

namespace Rendition

open Text

/-! ### Extensions -/

/-- A text that a file name can have behind its last dot. -/
structure IsExtension (s : String) : Prop where
  ne_empty : s ≠ ""
  no_dot : '.' ∉ s.toList
  no_slash : '/' ∉ s.toList
  no_backslash : '\\' ∉ s.toList
  no_nul : '\x00' ∉ s.toList

instance (s : String) : Decidable (IsExtension s) :=
  decidable_of_iff (s ≠ "" ∧ '.' ∉ s.toList ∧ '/' ∉ s.toList ∧ '\\' ∉ s.toList ∧
      '\x00' ∉ s.toList)
    ⟨fun ⟨a, b, c, d, e⟩ => ⟨a, b, c, d, e⟩, fun ⟨a, b, c, d, e⟩ => ⟨a, b, c, d, e⟩⟩

theorem RequestPath.isExtension {p : RequestPath} {stem ext : String}
    (h : splitExtension p.fileName = some (stem, ext)) : IsExtension ext := by
  obtain ⟨hname, -, hext, hdot⟩ := splitExtension_eq_some.1 h
  have hsegment := p.isSegment_fileName
  have hmem : ∀ c ∈ ext.toList, c ∈ p.fileName.toList := by
    intro c hc
    simp [hname, hc]
  exact ⟨hext, hdot, fun hc => hsegment.no_slash (hmem _ hc),
    fun hc => hsegment.no_backslash (hmem _ hc), fun hc => hsegment.no_nul (hmem _ hc)⟩

theorem RequestPath.extension_eq {p : RequestPath} {stem ext : String}
    (h : splitExtension p.fileName = some (stem, ext)) : p.extension = some ext := by
  rw [extension, h]
  rfl

namespace Fallbacks

/-- Every further extension is a text of ASCII letters and digits, and not empty. -/
def Plain (t : Fallbacks) : Prop :=
  ∀ ext, ∀ c ∈ t.alternates ext, c ≠ "" ∧ ∀ d ∈ c.toList, d.isAlphanum = true

theorem mem_of_mem_alternates {t : Fallbacks} {ext c : String} (h : c ∈ t.alternates ext) :
    ∃ entry ∈ t.lists, c ∈ entry.2 := by
  unfold alternates at h
  cases hlookup : t.lists.lookup (lower ext) with
  | none => simp [hlookup] at h
  | some alternates =>
      obtain ⟨front, back, hlists, -⟩ := List.lookup_eq_some_iff.1 hlookup
      exact ⟨(lower ext, alternates), by simp [hlists], by simpa [hlookup] using h⟩

/-- A table is plain if its lists are. -/
theorem plain_of_lists {t : Fallbacks}
    (h : ∀ entry ∈ t.lists, ∀ c ∈ entry.2, c ≠ "" ∧ ∀ d ∈ c.toList, d.isAlphanum = true) :
    t.Plain := by
  intro ext c hc
  obtain ⟨entry, hentry, hmem⟩ := mem_of_mem_alternates hc
  exact h entry hentry c hmem

theorem plain_builtIn : builtIn.Plain := plain_of_lists (by simp [builtIn])

theorem plain_none : none.Plain := plain_of_lists (by simp [none])

theorem mem_of_mem_unseen {c : String} {seen l : List String} (h : c ∈ unseen seen l) : c ∈ l := by
  induction l generalizing seen with
  | nil => cases h
  | cons first rest ih =>
      unfold unseen at h
      split at h
      · exact List.mem_cons_of_mem _ (ih h)
      · rcases List.mem_cons.1 h with rfl | h
        · exact List.mem_cons_self
        · exact List.mem_cons_of_mem _ (ih h)

/-- With a plain table, everything looked for in place of an extension is one. -/
theorem Plain.isExtension {t : Fallbacks} (h : t.Plain) {ext c : String} (hext : IsExtension ext)
    (hc : c ∈ t.candidates ext) : IsExtension c := by
  rcases List.mem_cons.1 hc with rfl | hc
  · exact hext
  · obtain ⟨hne, halnum⟩ := h ext c (mem_of_mem_unseen hc)
    have hfree : ∀ d : Char, d.isAlphanum = false → d ∉ c.toList := by
      intro d hd hmem
      simp [halnum d hmem] at hd
    exact ⟨hne, hfree '.' (by decide), hfree '/' (by decide), hfree '\\' (by decide),
      hfree '\x00' (by decide)⟩

end Fallbacks

/-! ### Paths of bases -/

/-- The path of a base is its file name behind the directory. -/
theorem pathOf_eq (dir base ext : String) : pathOf dir base ext = dir ++ (base ++ "." ++ ext) := by
  simp [pathOf, String.append_assoc]

/-- Another extension makes another path. -/
theorem pathOf_inj {dir base c c' : String} (h : pathOf dir base c = pathOf dir base c') :
    c = c' := by
  simpa [pathOf] using h

/-- Of a path with an extension, the extension and what is in front of it are determined. -/
theorem pathOf_inj_of_isExtension {dir base c dir' base' c' : String} (hc : IsExtension c)
    (hc' : IsExtension c') (h : pathOf dir base c = pathOf dir' base' c') :
    dir ++ base = dir' ++ base' ∧ c = c' := by
  have hcut : cutLast '.' (pathOf dir base c) = some (dir ++ base, c) :=
    cutLast_eq_some.2 ⟨rfl, hc.no_dot⟩
  have hcut' : cutLast '.' (pathOf dir' base' c') = some (dir' ++ base', c') :=
    cutLast_eq_some.2 ⟨rfl, hc'.no_dot⟩
  rw [h, hcut'] at hcut
  obtain ⟨hfront, hext⟩ := Prod.mk.inj (Option.some.inj hcut)
  exact ⟨hfront.symm, hext.symm⟩

/-- A base and an extension put together are cut there again, unless the base is empty. -/
theorem splitExtension_append_eq {base ext : String} (hext : IsExtension ext) :
    splitExtension (base ++ "." ++ ext) = if base = "" then none else some (base, ext) := by
  have hcut : cutLast '.' (base ++ "." ++ ext) = some (base, ext) :=
    cutLast_eq_some.2 ⟨rfl, hext.no_dot⟩
  rw [splitExtension, hcut]
  by_cases hbase : base = "" <;> simp [hbase, hext.ne_empty]

theorem splitExtension_append {base ext : String} (hbase : base ≠ "") (hext : IsExtension ext) :
    splitExtension (base ++ "." ++ ext) = some (base, ext) := by
  rw [splitExtension_append_eq hext, if_neg hbase]

/-- The path itself is that of its whole stem. -/
theorem text_eq_pathOf {p : RequestPath} {stem ext : String}
    (hsplit : splitExtension p.fileName = some (stem, ext)) : p.text = pathOf p.dir stem ext := by
  rw [p.text_eq, (splitExtension_eq_some.1 hsplit).1, pathOf_eq]

/-- The path of a shorter base is another one. -/
theorem pathOf_ne_text {p : RequestPath} {stem ext c : String}
    (hsplit : splitExtension p.fileName = some (stem, ext)) {cut : Cut} (hcut : cut ∈ cuts stem)
    (hne : cut.tokens ≠ []) : pathOf p.dir cut.base c ≠ p.text := by
  rw [text_eq_pathOf hsplit]
  have hwhole := whole_mem_cuts (splitExtension_eq_some.1 hsplit).2.1
  exact (pathOf_ne_pathOf hwhole hcut (List.length_pos_iff.2 hne)).symm

/-- The characters of a base are characters of the file name that was cut. -/
theorem mem_fileName_of_mem_base {p : RequestPath} {stem ext : String}
    (hsplit : splitExtension p.fileName = some (stem, ext)) {cut : Cut} (hcut : cut ∈ cuts stem)
    {c : Char} (hc : c ∈ cut.base.toList) : c ∈ p.fileName.toList := by
  obtain ⟨hstem, -, -⟩ := mem_cuts.1 hcut
  obtain ⟨hname, -⟩ := splitExtension_eq_some.1 hsplit
  have hmem : c ∈ stem.toList := hstem ▸ mem_joined_of_mem List.mem_cons_self hc
  simp [hname, hmem]

/-- The path of a base is a request path beside the one that was cut. -/
theorem exists_level {p : RequestPath} {stem ext : String}
    (hsplit : splitExtension p.fileName = some (stem, ext)) {cut : Cut} (hcut : cut ∈ cuts stem)
    {c : String} (hc : IsExtension c) :
    ∃ q : RequestPath, q.text = pathOf p.dir cut.base c ∧ q.dir = p.dir ∧
      splitExtension q.fileName = some (cut.base, c) := by
  have hbase : cut.base ≠ "" := (mem_cuts.1 hcut).2.1
  have hname := p.isSegment_fileName
  have hsegment : IsSegment (cut.base ++ "." ++ c) := by
    refine isSegment_of_parts hbase hc.ne_empty fun d hd => ?_
    rcases List.mem_append.1 hd with hd | hd
    · have hmem := mem_fileName_of_mem_base hsplit hcut hd
      exact ⟨fun h => hname.no_slash (h ▸ hmem), fun h => hname.no_backslash (h ▸ hmem),
        fun h => hname.no_nul (h ▸ hmem)⟩
    · exact ⟨fun h => hc.no_slash (h ▸ hd), fun h => hc.no_backslash (h ▸ hd),
        fun h => hc.no_nul (h ▸ hd)⟩
  refine ⟨p.sibling _ hsegment, ?_, by simp, ?_⟩
  · rw [RequestPath.text_sibling, pathOf_eq]
  · rw [RequestPath.fileName_sibling]
    exact splitExtension_append hbase hc

/-! ### Names of derivatives -/

/-- Does the stem of a path end in a directive behind a base that is not empty? -/
def namesDerivative (path : String) : Bool :=
  match splitExtension (nameOf path) with
  | none => false
  | some (stem, _) =>
    match cutLast '_' stem with
    | none => false
    | some (base, token) => base ≠ "" && Directive.isWellFormed token

/-- The name in a path with an extension ends in that extension. -/
theorem nameOf_pathOf {dir base c : String} (hc : IsExtension c) :
    nameOf (pathOf dir base c) = nameOf (dir ++ base) ++ "." ++ c := by
  have hfree : ∀ name : String, '/' ∉ name.toList → '/' ∉ (name ++ "." ++ c).toList := by
    intro name hname
    simp [hname, hc.no_slash]
  have hpath : pathOf dir base c = dir ++ base ++ "." ++ c := rfl
  cases hcut : cutLast '/' (dir ++ base) with
  | none =>
      have hcut' : cutLast '/' (pathOf dir base c) = none :=
        cutLast_eq_none.2 (hfree _ (cutLast_eq_none.1 hcut))
      rw [nameOf, hcut', nameOf, hcut, hpath]
  | some parts =>
      obtain ⟨front, name⟩ := parts
      obtain ⟨hfront, hname⟩ := cutLast_eq_some.1 hcut
      have hcut' : cutLast '/' (pathOf dir base c) = some (front, name ++ "." ++ c) :=
        cutLast_eq_some.2 ⟨by rw [hpath, hfront]; simp [String.append_assoc], hfree name hname⟩
      rw [nameOf, hcut', nameOf, hcut]

/-- Whether a path names a derivative does not depend on its extension. -/
theorem namesDerivative_congr {dir base c c' : String} (hc : IsExtension c)
    (hc' : IsExtension c') :
    namesDerivative (pathOf dir base c) = namesDerivative (pathOf dir base c') := by
  rw [namesDerivative, namesDerivative, nameOf_pathOf hc, nameOf_pathOf hc',
    splitExtension_append_eq hc, splitExtension_append_eq hc']
  by_cases hbase : nameOf (dir ++ base) = ""
  · rw [if_pos hbase, if_pos hbase]
  · rw [if_neg hbase, if_neg hbase]

/-- A request path whose stem can be cut in front of a directive at its end names a derivative. -/
theorem namesDerivative_of_cut {p : RequestPath} {stem ext : String}
    (hsplit : splitExtension p.fileName = some (stem, ext)) {cut : Cut}
    (hcut : cut ∈ generatedCuts stem) : namesDerivative p.text = true := by
  obtain ⟨hmem, hne, hformed⟩ := mem_generatedCuts.1 hcut
  obtain ⟨hstem, hbase, hfree⟩ := mem_cuts.1 hmem
  have hlast := List.getLast_mem hne
  have hsplitTokens : cut.base :: cut.tokens
      = (cut.base :: cut.tokens.dropLast) ++ [cut.tokens.getLast hne] := by
    rw [List.cons_append, List.dropLast_concat_getLast]
  have hcutLast : cutLast '_' stem
      = some (joined '_' (cut.base :: cut.tokens.dropLast), cut.tokens.getLast hne) := by
    rw [hstem, hsplitTokens]
    exact cutLast_joined_concat (by simp) (hfree _ hlast)
  simp [namesDerivative, hsplit, hcutLast, hformed _ hlast, joined_cons_ne_empty hbase]

/-- A base that can be cut back to a shorter one by directives has the path of a derivative. -/
theorem namesDerivative_level {p : RequestPath} {stem ext : String}
    (hsplit : splitExtension p.fileName = some (stem, ext)) {a b : Cut} (ha : a ∈ cuts stem)
    (hb : b ∈ generatedCuts stem) (hlen : a.tokens.length < b.tokens.length) {c : String}
    (hc : IsExtension c) : namesDerivative (pathOf p.dir a.base c) = true := by
  obtain ⟨q, htext, -, hsplit'⟩ := exists_level hsplit ha hc
  obtain ⟨between, -, hcut⟩ := generatedCut_of_length_lt ha hb hlen
  rw [← htext]
  exact namesDerivative_of_cut hsplit' hcut

end Rendition

import Mathlib.Data.List.Sort
import Rendition.Proofs.Ancestry

/-!
# Rendition.Proofs.Descent

An ancestry seen from one of its files. What stands behind a cut in the walk over a stem is the walk
over the base of that cut (`generatedCuts_behind`), so a file that has the extension of the request
is followed back to the files behind it in the ancestry, and to no other (`ancestorsIn_level`). All
such files, and the request itself, therefore have one true source (`ancestry_suffix_closed`). A
file with another extension may be followed back to others: for its extension others may stand.
-/

namespace Rendition

open Text

/-! ### Behind a cut -/

/-- Two lists whose elements grow are equal if they have the same ones. -/
theorem eq_of_mem_iff_of_pairwise {α : Type} {size : α → Nat} {l l' : List α}
    (hl : l.Pairwise fun x y => size x < size y) (hl' : l'.Pairwise fun x y => size x < size y)
    (hmem : ∀ a, a ∈ l ↔ a ∈ l') : l = l' := by
  have : Std.Irrefl fun x y : α => size x < size y := ⟨fun _ => Nat.lt_irrefl _⟩
  have : Std.Antisymm fun x y : α => size x < size y :=
    ⟨fun _ _ hlt hgt => absurd hlt (Nat.lt_asymm hgt)⟩
  exact hl.eq_of_mem_iff hl' hmem

/-- Where two cuts of one stem have a file of the same path, they are the same cut. -/
theorem cut_eq_of_pathOf_eq {stem dir ext ext' : String} {a b : Cut} (ha : a ∈ cuts stem)
    (hb : b ∈ cuts stem) (h : pathOf dir a.base ext = pathOf dir b.base ext') : a = b := by
  rcases Nat.lt_trichotomy a.tokens.length b.tokens.length with hlt | heq | hgt
  · exact absurd h (pathOf_ne_pathOf ha hb hlt)
  · exact cut_eq_of_length_eq ha hb heq
  · exact absurd h.symm (pathOf_ne_pathOf hb ha hgt)

/-- What is followed behind a cut is what is followed from its base, with its tokens behind. -/
theorem generatedCuts_behind {stem : String} {front back : List Cut} {cut : Cut}
    (hcuts : generatedCuts stem = front ++ cut :: back) :
    back = (generatedCuts cut.base).map fun c => ⟨c.base, c.tokens ++ cut.tokens⟩ := by
  have hcut : cut ∈ generatedCuts stem := by simp [hcuts]
  have hpair := pairwise_generatedCuts stem
  rw [hcuts] at hpair
  have hback : back.Pairwise fun a b => a.tokens.length < b.tokens.length :=
    (List.pairwise_cons.1 (List.pairwise_append.1 hpair).2.1).2
  have hbase : ((generatedCuts cut.base).map fun c =>
      (⟨c.base, c.tokens ++ cut.tokens⟩ : Cut)).Pairwise
        fun a b => a.tokens.length < b.tokens.length := by
    refine List.pairwise_map.2 ((pairwise_generatedCuts cut.base).imp fun hlt => ?_)
    simpa using hlt
  -- Both lists grow, so it is enough that they have the same members.
  refine eq_of_mem_iff_of_pairwise hback hbase fun c => ?_
  rw [mem_behind_of_pairwise hpair, ← hcuts, List.mem_map]
  constructor
  · rintro ⟨hc, hlt⟩
    obtain ⟨between, htokens, hmem⟩ :=
      generatedCut_of_length_lt (mem_generatedCuts.1 hcut).1 hc hlt
    exact ⟨_, hmem, by rw [← htokens]⟩
  · rintro ⟨d, hd, rfl⟩
    have hpos := List.length_pos_iff.2 (mem_generatedCuts.1 hd).2.1
    exact ⟨generatedCut_trans hcut hd, by simpa using hpos⟩

/-! ### Behind a file -/

variable {look : String → Option FileStat} {fallbacks : Fallbacks} {path : RequestPath}
  {stem extension : String}

/-- The true source of a file: the last one that it may have been made from, or the file itself if
there is none. -/
def trueSource (look : String → Option FileStat) (fallbacks : Fallbacks) (path : RequestPath)
    (file : FoundFile) : FoundFile :=
  (ancestorsIn look fallbacks path).getLastD file

/-- A file in an ancestry is found at a cut, and the files behind it are found behind that. -/
theorem exists_cut_of_ancestorsIn (hsplit : splitExtension path.fileName = some (stem, extension))
    {front behind : List FoundFile} {level : FoundFile}
    (hlevels : ancestorsIn look fallbacks path = front ++ level :: behind) :
    ∃ before cut back, generatedCuts stem = before ++ cut :: back ∧
      firstAt look fallbacks path.dir cut.base extension = some level ∧
      behind = back.filterMap fun c => firstAt look fallbacks path.dir c.base extension := by
  rw [ancestorsIn_eq hsplit] at hlevels
  obtain ⟨before, rest, hcuts, -, hrest⟩ := List.filterMap_eq_append_iff.1 hlevels
  obtain ⟨skipped, cut, back, rfl, -, hlevel, hbehind⟩ := List.filterMap_eq_cons_iff.1 hrest
  exact ⟨before ++ skipped, cut, back, by rw [hcuts, List.append_assoc], hlevel, hbehind.symm⟩

/-- A file of an ancestry with the extension of the request has the files behind it as its own
ancestry. -/
theorem ancestorsIn_level (hsplit : splitExtension path.fileName = some (stem, extension))
    {front behind : List FoundFile} {level : FoundFile}
    (hlevels : ancestorsIn look fallbacks path = front ++ level :: behind) {base : String}
    (hbase : IsOrigin stem base) (hpath : level.path = pathOf path.dir base extension) :
    ∃ q : RequestPath, q.text = level.path ∧ ancestorsIn look fallbacks q = behind := by
  obtain ⟨before, cut, back, hcuts, hlevel, rfl⟩ := exists_cut_of_ancestorsIn hsplit hlevels
  have hcut : cut ∈ cuts stem := (mem_generatedCuts.1 (by simp [hcuts])).1
  -- The base is that of the cut at which the file was found, since no other cut has its path.
  obtain rfl : cut.base = base := by
    obtain ⟨other, hother, rfl⟩ := isOrigin_iff.1 hbase
    obtain ⟨c, -, hfile⟩ := exists_of_firstAt hlevel
    have hsame : pathOf path.dir cut.base c = pathOf path.dir other.base extension :=
      (fileAt_eq_some.1 hfile).1.symm.trans hpath
    rw [cut_eq_of_pathOf_eq hcut (mem_generatedCuts.1 hother).1 hsame]
  obtain ⟨q, htext, hdir, hsplit'⟩ := exists_level hsplit hcut (RequestPath.isExtension hsplit)
  refine ⟨q, htext.trans hpath.symm, ?_⟩
  rw [ancestorsIn_eq hsplit', hdir, generatedCuts_behind hcuts, List.filterMap_map]
  rfl

/-- Where a file is followed by its own ancestry, its true source stands last. -/
theorem getLast?_eq_trueSource {q : RequestPath} {front behind : List FoundFile} {level : FoundFile}
    (hlevels : ancestorsIn look fallbacks path = front ++ level :: behind)
    (hancestry : ancestorsIn look fallbacks q = behind) :
    (ancestorsIn look fallbacks path).getLast? = some (trueSource look fallbacks q level) := by
  rw [trueSource, hancestry, hlevels, List.getLastD_eq_getLast?]
  simp [List.getLast?_cons]

/-- The name of a file that has the base of an origin is cut at that base. -/
theorem splitExtension_origin (hsplit : splitExtension path.fileName = some (stem, extension))
    {base c : String} (hbase : IsOrigin stem base) (hc : IsExtension c) :
    splitExtension (nameOf (pathOf path.dir base c)) = some (base, c) := by
  obtain ⟨cut, hcut, rfl⟩ := isOrigin_iff.1 hbase
  obtain ⟨q, htext, -, hsplit'⟩ := exists_level hsplit (mem_generatedCuts.1 hcut).1 hc
  rw [← htext, RequestPath.nameOf_text, hsplit']

theorem IsOrigin.length_lt {base : String} (h : IsOrigin stem base) :
    base.length < stem.length := by
  obtain ⟨-, behind, rfl, -⟩ := h
  have : "_".length = 1 := rfl
  simp only [String.length_append]
  omega

/-- A file of an ancestry with the extension of the request, read as a path, is that path, and its
ancestry is what stands behind it. So it goes back to the same true source as the request and as
every other such file. The stems of all files get shorter and shorter, beginning with that of the
request: they are the bases that the files were found for, and a name is cut at its base whatever
extension it has. -/
theorem ancestry_suffix_closed (look : String → Option FileStat) (fallbacks : Fallbacks)
    (path : RequestPath) {stem extension : String}
    (hsplit : splitExtension path.fileName = some (stem, extension)) :
    (∀ i level base, (ancestorsIn look fallbacks path)[i]? = some level → IsOrigin stem base →
      level.path = pathOf path.dir base extension →
      ∃ q, RequestPath.parse level.path = .ok q ∧ q.text = level.path ∧
        ancestorsIn look fallbacks q = (ancestorsIn look fallbacks path).drop (i + 1) ∧
        (ancestorsIn look fallbacks path).getLast? = some (trueSource look fallbacks q level)) ∧
    (∃ bases, Origins look fallbacks path.dir stem extension bases
        (ancestorsIn look fallbacks path) ∧
      (stem :: bases).Pairwise fun a b => b.length < a.length) ∧
    ∀ base c, IsOrigin stem base → IsExtension c →
      splitExtension (nameOf (pathOf path.dir base c)) = some (base, c) := by
  refine ⟨fun i level base hi hbase hpath => ?_, ?_,
    fun base c => splitExtension_origin hsplit⟩
  · have hlevels : ancestorsIn look fallbacks path = (ancestorsIn look fallbacks path).take i
        ++ level :: (ancestorsIn look fallbacks path).drop (i + 1) := by
      obtain ⟨hlt, rfl⟩ := List.getElem?_eq_some_iff.1 hi
      rw [← List.drop_eq_getElem_cons, List.take_append_drop]
    obtain ⟨q, htext, hancestry⟩ := ancestorsIn_level hsplit hlevels hbase hpath
    exact ⟨q, htext ▸ q.parse_text, htext, hancestry, getLast?_eq_trueSource hlevels hancestry⟩
  · obtain ⟨bases, horigins⟩ : ∃ bases, Origins look fallbacks path.dir stem extension bases
        (ancestorsIn look fallbacks path) := exists_origins hsplit
    refine ⟨bases, horigins, List.pairwise_cons.2 ⟨fun base hbase => ?_, horigins.shorter⟩⟩
    exact ((horigins.mem_iff base).1 hbase).1.length_lt

/-- A third derivative goes back to the second one, and from there on as that does: to a first one
with another extension. -/
theorem ancestry_suffix_closed_at_third_derivative :
    let photo : StoredFile := ⟨.text "A", .epoch, .epoch⟩
    let look := (((Catalog.empty.insert "a.jpg" photo).insert "a_q1.png" photo).insert
      "a_q1_q2.jpg" photo).look
    let path := RequestPath.single "a_q1_q2_q3.jpg" (by decide)
    let second : FoundFile := ⟨"a_q1_q2.jpg", photo.stat⟩
    splitExtension path.fileName = some ("a_q1_q2_q3", "jpg") ∧
    (ancestorsIn look .builtIn path)[0]? = some second ∧
    IsOrigin "a_q1_q2_q3" "a_q1_q2" ∧ second.path = pathOf path.dir "a_q1_q2" "jpg" ∧
    IsExtension "jpg" ∧ splitExtension (nameOf second.path) = some ("a_q1_q2", "jpg") ∧
    ∃ q, RequestPath.parse second.path = .ok q ∧
      ancestorsIn look .builtIn q = [⟨"a_q1.png", photo.stat⟩, ⟨"a.jpg", photo.stat⟩] ∧
      trueSource look .builtIn q second = ⟨"a.jpg", photo.stat⟩ := by
  intro photo look path second
  have hsplit : splitExtension path.fileName = some ("a_q1_q2_q3", "jpg") := by decide +kernel
  have hlevels : ancestorsIn look .builtIn path
      = [second, ⟨"a_q1.png", photo.stat⟩, ⟨"a.jpg", photo.stat⟩] := by decide +kernel
  have horigin : IsOrigin "a_q1_q2_q3" "a_q1_q2" :=
    isOrigin_iff.2 ⟨⟨"a_q1_q2", ["q3"]⟩, by decide +kernel, rfl⟩
  have hfirst : (ancestorsIn look .builtIn path)[0]? = some second := by rw [hlevels]; rfl
  have hpath : second.path = pathOf path.dir "a_q1_q2" "jpg" := by decide +kernel
  have hextension : IsExtension "jpg" := by decide
  obtain ⟨hclosed, -, hstems⟩ := ancestry_suffix_closed look .builtIn path hsplit
  obtain ⟨q, hparse, -, hancestry, hsource⟩ := hclosed 0 second "a_q1_q2" hfirst horigin hpath
  rw [hlevels] at hancestry hsource
  exact ⟨hsplit, hfirst, horigin, hpath, hextension, hpath ▸ hstems _ _ horigin hextension, q,
    hparse, hancestry, (Option.some.inj hsource).symm⟩

end Rendition

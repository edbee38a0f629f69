import Mathlib.Data.List.Forall2
import Rendition.Proofs.Bases
import Rendition.Proofs.Files
import Rendition.Proofs.Staleness

/-!
# Rendition.Proofs.Ancestry

The two walks over a stem, one for the source of a request and one for the files that a file may
have been made from, and where they agree. An ancestry lists the files of the origins of a stem
(`IsOrigin`, `Origins`): the bases behind which there is nothing but directives. The source is found
whatever the tokens are. So the source is the nearest file of the ancestry if all tokens behind it
are directives, and otherwise there is no ancestry: its files would stand behind the source, and the
walk ends before that (`ancestry_agrees`).
-/

namespace Rendition

open Text

theorem Directive.isWellFormed_iff {token : String} :
    isWellFormed token = true ↔ ∃ d, parse token = .known d := by
  unfold isWellFormed
  cases parse token <;> simp [Reading.directive?]

/-! ### Origins of a stem -/

/-- What stands in front of an underscore of a stem, unless that is nothing, with only directives
behind it. -/
def IsOrigin (stem base : String) : Prop :=
  base ≠ "" ∧ ∃ behind, stem = base ++ "_" ++ behind ∧
    ∀ token ∈ pieces '_' behind, ∃ d, Directive.parse token = .known d

theorem isOrigin_iff {stem base : String} :
    IsOrigin stem base ↔ ∃ cut ∈ generatedCuts stem, cut.base = base := by
  simp only [IsOrigin, ← Directive.isWellFormed_iff]
  constructor
  · rintro ⟨hbase, behind, hstem, hformed⟩
    exact ⟨⟨base, pieces '_' behind⟩,
      mem_generatedCuts.2 ⟨cut_mem_of_eq hbase hstem, pieces_ne_nil '_' behind, hformed⟩, rfl⟩
  · rintro ⟨cut, hcut, rfl⟩
    obtain ⟨hmem, hne, hformed⟩ := mem_generatedCuts.1 hcut
    obtain ⟨hstem, hpieces⟩ := eq_of_cut_mem hmem hne
    exact ⟨(mem_cuts.1 hmem).2.1, _, hstem, by rwa [hpieces]⟩

/-! ### What an ancestry lists -/

variable {look : String → Option FileStat} {fallbacks : Fallbacks} {path : RequestPath}
  {stem extension : String}

/-- The origins of a stem that have a file, the longest first, and their first files. -/
structure Origins (look : String → Option FileStat) (fallbacks : Fallbacks)
    (dir stem extension : String) (bases : List String) (files : List FoundFile) : Prop where
  shorter : bases.Pairwise fun a b => b.length < a.length
  mem_iff : ∀ base, base ∈ bases ↔ IsOrigin stem base ∧
    ∃ c ∈ fallbacks.candidates extension, HasFile look (pathOf dir base c)
  first : List.Forall₂ (fun base file => IsFirstFile look fallbacks dir base extension file)
    bases files

/-- The finds in a list stand beside the elements that they were found for. -/
theorem forall₂_filterMap {α β γ : Type} {R : γ → β → Prop} (find : α → Option β) (key : α → γ)
    (h : ∀ a b, find a = some b → R (key a) b) : ∀ l : List α,
    List.Forall₂ R ((l.filter fun a => (find a).isSome).map key) (l.filterMap find)
  | [] => .nil
  | a :: rest => by
      have ih := forall₂_filterMap find key h rest
      cases ha : find a with
      | none => rwa [List.filterMap_cons_none ha, List.filter_cons_of_neg (by simp [ha])]
      | some b =>
          rw [List.filterMap_cons_some ha, List.filter_cons_of_pos (by simp [ha])]
          exact .cons (h a b ha) ih

theorem isSome_firstAt_iff {dir base extension : String} :
    (firstAt look fallbacks dir base extension).isSome = true ↔
      ∃ c ∈ fallbacks.candidates extension, HasFile look (pathOf dir base c) := by
  rw [← not_iff_not, Bool.not_eq_true, Option.isSome_eq_false_iff, Option.isNone_iff_eq_none,
    firstAt_eq_none_iff]
  simp

/-- An ancestry lists the files of the origins. -/
theorem exists_origins (hsplit : splitExtension path.fileName = some (stem, extension)) :
    ∃ bases, Origins look fallbacks path.dir stem extension bases
      (ancestorsIn look fallbacks path) := by
  let found := (generatedCuts stem).filter fun cut =>
    (firstAt look fallbacks path.dir cut.base extension).isSome
  have hmem : ∀ {cut}, cut ∈ found → cut ∈ cuts stem := fun hcut =>
    (mem_generatedCuts.1 (List.mem_filter.1 hcut).1).1
  refine ⟨found.map (·.base), ?_, fun base => ?_, ?_⟩
  · have hpair : found.Pairwise fun a b => a.tokens.length < b.tokens.length :=
      (pairwise_generatedCuts stem).filter _
    refine List.pairwise_map.2 (hpair.imp_of_mem fun ha hb hlt => ?_)
    exact (length_base_lt_iff (hmem ha) (hmem hb)).2 hlt
  · rw [isOrigin_iff, ← isSome_firstAt_iff, List.mem_map]
    constructor
    · rintro ⟨cut, hcut, rfl⟩
      obtain ⟨hgenerated, hsome⟩ := List.mem_filter.1 hcut
      exact ⟨⟨cut, hgenerated, rfl⟩, hsome⟩
    · rintro ⟨⟨cut, hgenerated, rfl⟩, hsome⟩
      exact ⟨cut, List.mem_filter.2 ⟨hgenerated, hsome⟩, rfl⟩
  · rw [ancestorsIn_eq hsplit]
    have hfirst : ∀ cut file, firstAt look fallbacks path.dir (Cut.base cut) extension = some file →
        IsFirstFile look fallbacks path.dir cut.base extension file :=
      fun _ _ => firstAt_eq_some_iff.1
    exact forall₂_filterMap _ Cut.base hfirst (generatedCuts stem)

/-! ### The source in an ancestry -/

section Source

variable {source : FoundFile} {cut : Cut}
  (hsplit : splitExtension path.fileName = some (stem, extension))
  (hsource : firstAt look fallbacks path.dir cut.base extension = some source)
  (hnearest : ∀ other ∈ cuts stem, other.tokens.length < cut.tokens.length →
    firstAt look fallbacks path.dir other.base extension = none)

include hsplit hsource hnearest

/-- The nearest file at any cut comes first, if an ancestry follows its cut. -/
theorem head?_ancestorsIn (hgenerated : cut ∈ generatedCuts stem) :
    (ancestorsIn look fallbacks path).head? = some source := by
  rw [ancestorsIn_eq hsplit, List.head?_filterMap]
  refine (findSome?_eq_some_of_pairwise (pairwise_generatedCuts stem)).2
    ⟨cut, hgenerated, hsource, fun other hother hlen => ?_⟩
  exact hnearest other (mem_generatedCuts.1 hother).1 hlen

/-- There is an ancestry only if it follows the cut of the nearest file. -/
theorem ancestorsIn_ne_nil_iff (hcut : cut ∈ cuts stem) (hne : cut.tokens ≠ []) :
    ancestorsIn look fallbacks path ≠ [] ↔ cut ∈ generatedCuts stem := by
  constructor
  · intro h
    obtain ⟨level, hlevel⟩ := List.exists_mem_of_ne_nil _ h
    obtain ⟨other, hother, hfound⟩ := (mem_ancestorsIn hsplit).1 hlevel
    -- No file is nearer, so the walk comes past the cut of the source.
    refine generatedCut_of_length_le hcut hne hother (Nat.le_of_not_lt fun hlt => ?_)
    rw [hnearest other (mem_generatedCuts.1 hother).1 hlt] at hfound
    cases hfound
  · intro hgenerated hnil
    have hhead := head?_ancestorsIn hsplit hsource hnearest hgenerated
    rw [hnil] at hhead
    cases hhead

end Source

/-- A request that is answered from a source has an ancestry exactly if all its tokens are
directives, and then the source comes first in it. Whatever it is answered from, its ancestry lists
the files of its origins. -/
theorem ancestry_agrees (look : String → Option FileStat) (fallbacks : Fallbacks)
    (path : RequestPath) :
    (∀ source chain extension,
      resolveIn look fallbacks path = .ok (.derived source chain extension) →
      chain.isEmpty = false →
      (ancestorsIn look fallbacks path ≠ [] ↔
        ∀ token ∈ chain.tokens, ∃ d, token.parse = .known d) ∧
      ∀ level ∈ (ancestorsIn look fallbacks path).head?, level = source) ∧
    (splitExtension path.fileName = none → ancestorsIn look fallbacks path = []) ∧
    ∀ stem extension, splitExtension path.fileName = some (stem, extension) →
      ∃ bases, Origins look fallbacks path.dir stem extension bases
        (ancestorsIn look fallbacks path) := by
  refine ⟨fun source chain extension hresolve hchain => ?_, ancestorsIn_eq_nil,
    fun stem extension hsplit => exists_origins hsplit⟩
  obtain ⟨-, stem, hsplit, cut, hcut, rfl, hsource, hnearest⟩ := resolveIn_eq_derived.1 hresolve
  have hne : cut.tokens ≠ [] := by simpa using hchain
  have hnonempty := ancestorsIn_ne_nil_iff hsplit hsource hnearest hcut hne
  constructor
  · rw [hnonempty, mem_generatedCuts]
    simp [hcut, hne, Chain.ofTexts, Token.parse, Directive.isWellFormed_iff]
  · intro level hlevel
    have hgenerated := hnonempty.1 fun hnil => by simp [hnil] at hlevel
    rw [head?_ancestorsIn hsplit hsource hnearest hgenerated] at hlevel
    exact (Option.some.inj hlevel).symm

/-- The ancestry of a second derivative starts with the first one, from which it would be made. -/
theorem ancestry_agrees_at_second_derivative :
    let photo : StoredFile := ⟨.text "A", .epoch, .epoch⟩
    let look := ((Catalog.empty.insert "a.jpg" photo).insert "a_q1.jpg" photo).look
    let path := RequestPath.single "a_q1_q2.jpg" (by decide)
    ancestorsIn look .none path ≠ [] ∧
      ∀ level ∈ (ancestorsIn look .none path).head?, level = ⟨"a_q1.jpg", photo.stat⟩ := by
  intro photo look path
  have hresolve : resolveIn look .none path
      = .ok (.derived ⟨"a_q1.jpg", photo.stat⟩ (Chain.ofTexts ["q2"]) "jpg") :=
    eq_ok_of_toOption (by decide +kernel)
  obtain ⟨hancestry, hsource⟩ := (ancestry_agrees look .none path).1 _ _ _ hresolve rfl
  exact ⟨hancestry.2 (List.forall_mem_singleton.2 ⟨.quality 2, by decide⟩), hsource⟩

end Rendition

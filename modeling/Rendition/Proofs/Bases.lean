import Rendition.Proofs.Lookup

/-!
# Rendition.Proofs.Bases

Which file a request is answered from, said without the cuts of its stem. A base of a stem is the
stem itself or what stands in front of one of its underscores (`IsBase`), and of the files that may
stand for a base one comes first (`IsFirstFile`). A request that names no file is answered from the
longest base that has a file (`Resolves`), and from nothing else (`resolves_iff`).

A base leaves one list of tokens behind it, so the bases of a stem are the bases of its cuts
(`isBase_iff`), and the longer of two bases has fewer tokens behind it (`length_base_lt_iff`).
-/

namespace Rendition

open Text

/-! ### Bases of a stem -/

/-- The stem itself, or what stands in front of one of its underscores, unless that is nothing. -/
def IsBase (stem base : String) : Prop :=
  base = stem ∨ base ≠ "" ∧ ∃ behind, stem = base ++ "_" ++ behind

theorem IsBase.ne_empty {stem base : String} (h : IsBase stem base) (hstem : stem ≠ "") :
    base ≠ "" := by
  rcases h with rfl | ⟨hbase, -⟩
  · exact hstem
  · exact hbase

/-- What stands behind an underscore, cut at its underscores, makes a cut of the stem. -/
theorem cut_mem_of_eq {stem base behind : String} (hbase : base ≠ "")
    (hstem : stem = base ++ "_" ++ behind) : ⟨base, pieces '_' behind⟩ ∈ cuts stem := by
  refine mem_cuts.2 ⟨?_, hbase, fun token htoken => not_mem_of_mem_pieces htoken⟩
  rw [joined_cons (pieces_ne_nil '_' behind), joined_pieces]
  exact hstem

/-- A cut that leaves tokens has its base in front of an underscore, and them behind it. -/
theorem eq_of_cut_mem {stem : String} {cut : Cut} (hcut : cut ∈ cuts stem)
    (hne : cut.tokens ≠ []) :
    stem = cut.base ++ "_" ++ joined '_' cut.tokens ∧
      pieces '_' (joined '_' cut.tokens) = cut.tokens := by
  obtain ⟨hstem, -, hfree⟩ := mem_cuts.1 hcut
  exact ⟨hstem.trans (joined_cons hne), pieces_joined hne hfree⟩

theorem isBase_of_cut {stem : String} {cut : Cut} (hcut : cut ∈ cuts stem) :
    IsBase stem cut.base := by
  by_cases hne : cut.tokens = []
  · have hwhole := (mem_cuts.1 hcut).1
    rw [hne, joined_singleton] at hwhole
    exact Or.inl hwhole.symm
  · exact Or.inr ⟨(mem_cuts.1 hcut).2.1, _, (eq_of_cut_mem hcut hne).1⟩

theorem isBase_iff {stem base : String} (hstem : stem ≠ "") :
    IsBase stem base ↔ ∃ cut ∈ cuts stem, cut.base = base := by
  constructor
  · rintro (rfl | ⟨hbase, behind, heq⟩)
    · exact ⟨⟨base, []⟩, whole_mem_cuts hstem, rfl⟩
    · exact ⟨⟨base, pieces '_' behind⟩, cut_mem_of_eq hbase heq, rfl⟩
  · rintro ⟨cut, hcut, rfl⟩
    exact isBase_of_cut hcut

/-- A cut leaves no tokens exactly if its base is the whole stem. -/
theorem tokens_eq_nil_iff {stem : String} {cut : Cut} (hcut : cut ∈ cuts stem) :
    cut.tokens = [] ↔ cut.base = stem := by
  constructor
  · intro hnil
    have hstem := (mem_cuts.1 hcut).1
    rw [hnil, joined_singleton] at hstem
    exact hstem.symm
  · intro hbase
    refine Decidable.byContradiction fun hne => ?_
    have hlength := congrArg String.length (eq_of_cut_mem hcut hne).1
    simp only [String.length_append, hbase] at hlength
    have : "_".length = 1 := by decide
    omega

/-- Of two cuts of one stem, the one with the longer base leaves fewer tokens. -/
theorem length_base_lt_iff {stem : String} {a b : Cut} (ha : a ∈ cuts stem) (hb : b ∈ cuts stem) :
    b.base.length < a.base.length ↔ a.tokens.length < b.tokens.length := by
  have hlonger : ∀ {a b : Cut}, a ∈ cuts stem → b ∈ cuts stem →
      a.tokens.length < b.tokens.length → b.base.length < a.base.length := by
    intro a b ha hb hlt
    obtain ⟨between, htokens, hbase⟩ := cut_split ha hb (Nat.le_of_lt hlt)
    have hne : between ≠ [] := by
      rintro rfl
      simp [htokens] at hlt
    rw [hbase, joined_cons hne]
    simp only [String.length_append, String.length_singleton]
    omega
  refine ⟨fun hlt => ?_, hlonger ha hb⟩
  rcases Nat.lt_trichotomy a.tokens.length b.tokens.length with h | h | h
  · exact h
  · rw [cut_eq_of_length_eq ha hb h] at hlt
    omega
  · have := hlonger hb ha h
    omega

/-! ### Files that may stand for a base -/

variable {look : String → Option FileStat} {fallbacks : Fallbacks}

/-- There is a file at a path; a directory or a device is none. -/
def HasFile (look : String → Option FileStat) (path : String) : Prop :=
  ∃ stat, look path = some stat ∧ stat.isFile = true

/-- A file has the first of the extensions that may stand for one with which a base has a file. -/
def IsFirstFile (look : String → Option FileStat) (fallbacks : Fallbacks)
    (dir base extension : String) (file : FoundFile) : Prop :=
  ∃ front c back, fallbacks.candidates extension = front ++ c :: back ∧
    file.path = pathOf dir base c ∧ look file.path = some file.stat ∧ file.stat.isFile = true ∧
    ∀ d ∈ front, ¬ HasFile look (pathOf dir base d)

theorem hasFile_of_fileAt {path : String} {file : FoundFile}
    (h : fileAt look path = some file) : HasFile look path := by
  obtain ⟨rfl, hlook, hisFile⟩ := fileAt_eq_some.1 h
  exact ⟨file.stat, hlook, hisFile⟩

theorem fileAt_eq_none_iff {path : String} : fileAt look path = none ↔ ¬ HasFile look path := by
  constructor
  · rintro hnone ⟨stat, hlook, hfile⟩
    have hsome : fileAt look path = some ⟨path, stat⟩ := fileAt_eq_some.2 ⟨rfl, hlook, hfile⟩
    cases hnone.symm.trans hsome
  · intro hnone
    cases hfile : fileAt look path with
    | none => rfl
    | some file =>
        obtain ⟨-, hlook, hisFile⟩ := fileAt_eq_some.1 hfile
        exact absurd ⟨file.stat, hlook, hisFile⟩ hnone

theorem firstAt_eq_some_iff {dir base extension : String} {file : FoundFile} :
    firstAt look fallbacks dir base extension = some file ↔
      IsFirstFile look fallbacks dir base extension file := by
  rw [firstAt_eq_findSome?, List.findSome?_eq_some_iff]
  constructor
  · rintro ⟨front, c, back, hlist, hfile, hfront⟩
    obtain ⟨hpath, hlook, hisFile⟩ := fileAt_eq_some.1 hfile
    exact ⟨front, c, back, hlist, hpath, hpath ▸ hlook, hisFile,
      fun d hd => fileAt_eq_none_iff.1 (hfront d hd)⟩
  · rintro ⟨front, c, back, hlist, hpath, hlook, hisFile, hfront⟩
    exact ⟨front, c, back, hlist, fileAt_eq_some.2 ⟨hpath, hpath ▸ hlook, hisFile⟩,
      fun d hd => fileAt_eq_none_iff.2 (hfront d hd)⟩

theorem firstAt_eq_none_iff {dir base extension : String} :
    firstAt look fallbacks dir base extension = none ↔
      ∀ c ∈ fallbacks.candidates extension, ¬ HasFile look (pathOf dir base c) := by
  simp only [firstAt_eq_none, fileAt_eq_none_iff]

/-! ### What a request is answered from -/

/-- What a path is answered from, or why it is not answered. -/
inductive Resolves (look : String → Option FileStat) (fallbacks : Fallbacks) (path : RequestPath) :
    Except Error Resolution → Prop
  /-- It names a file. -/
  | direct {stat : FileStat} (hlook : look path.text = some stat) (hfile : stat.isFile = true) :
      Resolves look fallbacks path (.ok (.direct ⟨path.text, stat⟩))
  /-- It names no file and has no extension. -/
  | noExtension (hnone : ¬ HasFile look path.text) (hsplit : splitExtension path.fileName = none) :
      Resolves look fallbacks path
        (.error (.notFound ("'" ++ path.text ++ "' does not exist and has no extension")))
  /-- It names no file, and no base of its stem has one. -/
  | noSource {stem extension : String} (hnone : ¬ HasFile look path.text)
      (hsplit : splitExtension path.fileName = some (stem, extension))
      (hbases : ∀ base, IsBase stem base → ∀ c ∈ fallbacks.candidates extension,
        ¬ HasFile look (pathOf path.dir base c)) :
      Resolves look fallbacks path (.error (.notFound ("no source file for '" ++ path.text ++ "'")))
  /-- It names no file; the longest base of its stem that has one is its source, and the tokens
  behind that are carried out, the nearest first. -/
  | derived {stem extension base : String} {tokens : List String} {source : FoundFile}
      (hnone : ¬ HasFile look path.text)
      (hsplit : splitExtension path.fileName = some (stem, extension)) (hbase : IsBase stem base)
      (hsource : IsFirstFile look fallbacks path.dir base extension source)
      (hlongest : ∀ longer, IsBase stem longer → base.length < longer.length →
        ∀ c ∈ fallbacks.candidates extension, ¬ HasFile look (pathOf path.dir longer c))
      (hstem : joined '_' (base :: tokens) = stem) (htokens : ∀ token ∈ tokens, '_' ∉ token.toList)
      (hwhole : tokens = [] ↔ base = stem) :
      Resolves look fallbacks path (.ok (.derived source (Chain.ofTexts tokens) extension))

/-- A path is not answered for one of two reasons. -/
theorem resolveIn_eq_error {path : RequestPath} {u : Unresolved} :
    resolveIn look fallbacks path = .error u ↔ fileAt look path.text = none ∧
      (splitExtension path.fileName = none ∧ u = .noExtension path ∨
        ∃ stem extension, splitExtension path.fileName = some (stem, extension) ∧
          u = .noSource path ∧
          ∀ cut ∈ cuts stem, firstAt look fallbacks path.dir cut.base extension = none) := by
  rw [resolveIn_eq]
  cases fileAt look path.text with
  | some file => simp
  | none =>
      cases splitExtension path.fileName with
      | none => simp [eq_comm]
      | some parts =>
          obtain ⟨stem, extension⟩ := parts
          simp only [true_and, reduceCtorEq, false_and, false_or, Option.some.injEq, Prod.mk.injEq]
          constructor
          · intro h
            split at h
            · cases h
            · next hnone =>
                refine ⟨stem, extension, ⟨rfl, rfl⟩, (Except.error.inj h).symm, fun cut hcut => ?_⟩
                simpa using List.findSome?_eq_none_iff.1 hnone cut hcut
          · rintro ⟨_, _, ⟨rfl, rfl⟩, rfl, hnone⟩
            rw [List.findSome?_eq_none_iff.2 fun cut hcut => by simp [hnone cut hcut]]

/-- That some bases of a stem have no file is a statement about its cuts. -/
theorem forall_base_iff {stem dir extension : String} (hstem : stem ≠ "") {p : String → Prop} :
    (∀ base, IsBase stem base → p base → ∀ c ∈ fallbacks.candidates extension,
        ¬ HasFile look (pathOf dir base c)) ↔
      ∀ cut ∈ cuts stem, p cut.base → firstAt look fallbacks dir cut.base extension = none := by
  simp only [firstAt_eq_none_iff]
  constructor
  · intro h cut hcut
    exact h cut.base (isBase_of_cut hcut)
  · intro h base hbase
    obtain ⟨cut, hcut, rfl⟩ := (isBase_iff hstem).1 hbase
    exact h cut hcut

/-- What a path is resolved to is what the files say. -/
theorem resolves_resolveIn (look : String → Option FileStat) (fallbacks : Fallbacks)
    (path : RequestPath) :
    Resolves look fallbacks path
      ((resolveIn look fallbacks path).mapError Unresolved.toError) := by
  cases hresolve : resolveIn look fallbacks path with
  | ok r =>
      cases r with
      | direct file =>
          obtain ⟨hpath, hlook, hisFile⟩ := fileAt_eq_some.1 (resolveIn_eq_direct.1 hresolve)
          obtain ⟨_, stat⟩ := file
          obtain rfl := hpath
          exact .direct hlook hisFile
      | derived source chain extension =>
          obtain ⟨hnone, stem, hsplit, cut, hcut, rfl, hsource, hnearest⟩ :=
            resolveIn_eq_derived.1 hresolve
          have hstem := (splitExtension_eq_some.1 hsplit).2.1
          obtain ⟨hjoined, -, hfree⟩ := mem_cuts.1 hcut
          refine .derived (fileAt_eq_none_iff.1 hnone) hsplit
            (isBase_of_cut hcut) (firstAt_eq_some_iff.1 hsource)
            ((forall_base_iff hstem).2 fun other hother hlonger => ?_) hjoined.symm hfree
            (tokens_eq_nil_iff hcut)
          exact hnearest other hother ((length_base_lt_iff hother hcut).1 hlonger)
  | error u =>
      obtain ⟨hnone, ⟨hsplit, rfl⟩ | ⟨stem, extension, hsplit, rfl, hcuts⟩⟩ :=
        resolveIn_eq_error.1 hresolve
      · exact .noExtension (fileAt_eq_none_iff.1 hnone) hsplit
      · refine .noSource (fileAt_eq_none_iff.1 hnone) hsplit fun base hbase => ?_
        obtain ⟨cut, hcut, rfl⟩ := (isBase_iff (splitExtension_eq_some.1 hsplit).2.1).1 hbase
        exact firstAt_eq_none_iff.1 (hcuts cut hcut)

/-- The files say one thing only. -/
theorem Resolves.resolveIn_eq {path : RequestPath} {outcome : Except Error Resolution}
    (h : Resolves look fallbacks path outcome) :
    (resolveIn look fallbacks path).mapError Unresolved.toError = outcome := by
  cases h with
  | @direct stat hlook hisFile =>
      have hfile : fileAt look path.text = some ⟨path.text, stat⟩ :=
        fileAt_eq_some.2 ⟨rfl, hlook, hisFile⟩
      rw [resolveIn_eq_direct.2 hfile]
      rfl
  | noExtension hnone hsplit =>
      rw [resolveIn_eq_error.2 ⟨fileAt_eq_none_iff.2 hnone, Or.inl ⟨hsplit, rfl⟩⟩]
      rfl
  | @noSource stem extension hnone hsplit hbases =>
      have hcuts : ∀ cut ∈ cuts stem, firstAt look fallbacks path.dir cut.base extension = none :=
        fun cut hcut => firstAt_eq_none_iff.2 (hbases cut.base (isBase_of_cut hcut))
      rw [resolveIn_eq_error.2
        ⟨fileAt_eq_none_iff.2 hnone, Or.inr ⟨stem, extension, hsplit, rfl, hcuts⟩⟩]
      rfl
  | @derived stem extension base tokens source hnone hsplit hbase hsource hlongest hjoined hfree =>
      have hstem := (splitExtension_eq_some.1 hsplit).2.1
      -- The base and the tokens are those of one cut.
      have hcut : ⟨base, tokens⟩ ∈ cuts stem :=
        mem_cuts.2 ⟨hjoined.symm, hbase.ne_empty hstem, hfree⟩
      have hresolve : resolveIn look fallbacks path
          = .ok (.derived source (Chain.ofTexts tokens) extension) := by
        refine resolveIn_eq_derived.2 ⟨fileAt_eq_none_iff.2 hnone, stem, hsplit, _, hcut, rfl,
          firstAt_eq_some_iff.2 hsource, fun other hother hfewer => ?_⟩
        exact (forall_base_iff hstem).1 hlongest other hother
          ((length_base_lt_iff hother hcut).2 hfewer)
      rw [hresolve]
      rfl

/-- A path is answered as the files say, and in no other way. -/
theorem resolves_iff {path : RequestPath} {outcome : Except Error Resolution} :
    (resolveIn look fallbacks path).mapError Unresolved.toError = outcome ↔
      Resolves look fallbacks path outcome := by
  constructor
  · intro h
    exact h ▸ resolves_resolveIn look fallbacks path
  · exact Resolves.resolveIn_eq

end Rendition

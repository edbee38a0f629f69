import Rendition.Proofs.Effects

/-!
# Rendition.Proofs.Growth

What a path is answered from when files are added. The answer is looked for at a few paths only
(`MayAnswer`), in a fixed order. So if every file is still there (`Covers`), what was found can be
found, and what is found now stands no later in that order (`NoFarther`); and if no file changes
(`Extends`) and none is added at one of those paths, the answer is the same.

Keeping a derivative takes no file away, and a request that is not checked only puts a file where
there was none (`Engine.extends_serve`). Along such requests the files grow, and a path that can be
answered stays so (`resolution_grows`).
-/

namespace Rendition

open Text Time

/-! ### More files -/

/-- Where the one look shows a file the other shows one. -/
def Covers (look look' : String → Option FileStat) : Prop :=
  ∀ path, HasFile look path → HasFile look' path

/-- Every file that the one look shows is shown by the other, with the same times. -/
def Extends (look look' : String → Option FileStat) : Prop :=
  ∀ path stat, look path = some stat → stat.isFile = true → look' path = some stat

section Looks

variable {look look' look'' : String → Option FileStat} {fallbacks : Fallbacks}
  {dir base extension : String}

namespace Covers

variable (h : Covers look look')

include h

theorem firstAt_isSome (hfound : (firstAt look fallbacks dir base extension).isSome) :
    (firstAt look' fallbacks dir base extension).isSome := by
  rw [Option.isSome_iff_ne_none] at *
  intro hnone
  refine hfound (firstAt_eq_none_iff.2 fun c hc hfile => ?_)
  exact firstAt_eq_none_iff.1 hnone c hc (h _ hfile)

/-- The file for a base has an extension that is looked for no later than the one of a file from
fewer. -/
theorem exists_idxOf_le {file file' : FoundFile}
    (hfile : firstAt look fallbacks dir base extension = some file)
    (hfile' : firstAt look' fallbacks dir base extension = some file') :
    ∃ c ∈ fallbacks.candidates extension, ∃ c' ∈ fallbacks.candidates extension,
      file.path = pathOf dir base c ∧ file'.path = pathOf dir base c' ∧
      (fallbacks.candidates extension).idxOf c' ≤ (fallbacks.candidates extension).idxOf c := by
  obtain ⟨c, hc, hfound⟩ := exists_of_firstAt hfile
  obtain ⟨front, c', back, hlist, hpath', -, -, hfront⟩ := firstAt_eq_some_iff.1 hfile'
  have hnot : c ∉ front := fun hmem => hfront c hmem (h _ (hasFile_of_fileAt hfound))
  refine ⟨c, hc, c', by simp [hlist], (fileAt_eq_some.1 hfound).1, hpath', ?_⟩
  calc (fallbacks.candidates extension).idxOf c'
      ≤ front.length := by
        rw [hlist]
        by_cases hmem : c' ∈ front
        · rw [List.idxOf_append_of_mem hmem]
          exact List.idxOf_le_length
        · simp [List.idxOf_append_of_notMem hmem]
    _ ≤ (fallbacks.candidates extension).idxOf c := by
        rw [hlist, List.idxOf_append_of_notMem hnot]
        exact Nat.le_add_right _ _

end Covers

namespace Extends

theorem refl (look : String → Option FileStat) : Extends look look := fun _ _ hlook _ => hlook

theorem trans (h : Extends look look') (h' : Extends look' look'') : Extends look look'' :=
  fun path stat hlook hfile => h' path stat (h path stat hlook hfile) hfile

theorem covers (h : Extends look look') : Covers look look' := by
  rintro path ⟨stat, hlook, hfile⟩
  exact ⟨stat, h path stat hlook hfile, hfile⟩

theorem found (h : Extends look look') {path : String} {file : FoundFile}
    (hfile : fileAt look path = some file) : fileAt look' path = some file := by
  obtain ⟨hpath, hlook, hisFile⟩ := fileAt_eq_some.1 hfile
  exact fileAt_eq_some.2 ⟨hpath, h _ _ hlook hisFile, hisFile⟩

/-- Where no file is added the same is found. -/
theorem fileAt_eq (h : Extends look look') {path : String}
    (hadded : HasFile look' path → HasFile look path) :
    fileAt look' path = fileAt look path := by
  cases hfile : fileAt look path with
  | some file => exact h.found hfile
  | none =>
      exact fileAt_eq_none_iff.2 fun hfile' => fileAt_eq_none_iff.1 hfile (hadded hfile')

end Extends

end Looks

/-! ### Where answers come from -/

/-- A file at this path can answer a request: the path itself, or one with a base of the stem and an
extension that may stand for the requested one. -/
inductive MayAnswer (fallbacks : Fallbacks) (path : RequestPath) : String → Prop
  | itself : MayAnswer fallbacks path path.text
  | base {stem extension base c : String}
      (hsplit : splitExtension path.fileName = some (stem, extension)) (hbase : IsBase stem base)
      (hc : c ∈ fallbacks.candidates extension) :
      MayAnswer fallbacks path (pathOf path.dir base c)

/-- An answer is derived from the file with a base of the stem and an extension that may stand for
the requested one, by the tokens behind the base. -/
inductive AnsweredFrom (fallbacks : Fallbacks) (path : RequestPath) (base c : String) :
    Resolution → Prop
  | mk {stem extension : String} {tokens : List String} {source : FoundFile}
      (hsplit : splitExtension path.fileName = some (stem, extension)) (hbase : IsBase stem base)
      (hc : c ∈ fallbacks.candidates extension) (hpath : source.path = pathOf path.dir base c)
      (hstem : joined '_' (base :: tokens) = stem)
      (htokens : ∀ token ∈ tokens, '_' ∉ token.toList) :
      AnsweredFrom fallbacks path base c (.derived source (Chain.ofTexts tokens) extension)

/-- How an answer compares to the one from fewer files. -/
inductive NoFarther (fallbacks : Fallbacks) (path : RequestPath) : Resolution → Resolution → Prop
  /-- The path names a file. -/
  | direct {r : Resolution} {file : FoundFile} : NoFarther fallbacks path r (.direct file)
  /-- The answer is derived from a longer base, -/
  | longer {r r' : Resolution} {base base' c c' : String}
      (hbefore : AnsweredFrom fallbacks path base c r)
      (hafter : AnsweredFrom fallbacks path base' c' r') (hlonger : base.length < base'.length) :
      NoFarther fallbacks path r r'
  /-- or from the same one, with an extension that is looked for no later. -/
  | same {r r' : Resolution} {stem extension base c c' : String}
      (hsplit : splitExtension path.fileName = some (stem, extension))
      (hbefore : AnsweredFrom fallbacks path base c r)
      (hafter : AnsweredFrom fallbacks path base c' r')
      (hearlier : (fallbacks.candidates extension).idxOf c'
        ≤ (fallbacks.candidates extension).idxOf c) :
      NoFarther fallbacks path r r'

section Answers

variable {look look' : String → Option FileStat} {fallbacks : Fallbacks} {path : RequestPath}
  {stem extension : String}

/-- An answer by a cut of the stem is derived from the base of that. -/
theorem answeredFrom_of_cut {cut : Cut} {source : FoundFile} {c : String}
    (hsplit : splitExtension path.fileName = some (stem, extension)) (hcut : cut ∈ cuts stem)
    (hc : c ∈ fallbacks.candidates extension) (hpath : source.path = pathOf path.dir cut.base c) :
    AnsweredFrom fallbacks path cut.base c
      (.derived source (Chain.ofTexts cut.tokens) extension) := by
  obtain ⟨hstem, -, hfree⟩ := mem_cuts.1 hcut
  exact .mk hsplit (isBase_of_cut hcut) hc hpath hstem.symm hfree

/-- Where there are more files a path is still answered, and from no farther. -/
theorem Covers.exists_resolveIn (h : Covers look look') {r : Resolution}
    (hresolve : resolveIn look fallbacks path = .ok r) :
    ∃ r', resolveIn look' fallbacks path = .ok r' ∧ NoFarther fallbacks path r r' := by
  cases r with
  | direct file =>
      obtain ⟨stat, hlook', hisFile'⟩ := h _ (hasFile_of_fileAt (resolveIn_eq_direct.1 hresolve))
      have hfile' : fileAt look' path.text = some ⟨path.text, stat⟩ :=
        fileAt_eq_some.2 ⟨rfl, hlook', hisFile'⟩
      exact ⟨_, resolveIn_eq_direct.2 hfile', .direct⟩
  | derived source chain extension =>
      obtain ⟨-, stem, hsplit, cut, hcut, rfl, hsource, -⟩ := resolveIn_eq_derived.1 hresolve
      have hstill := h.firstAt_isSome (Option.isSome_of_eq_some hsource)
      obtain ⟨r', hresolve'⟩ := resolveIn_ok_of_cut hsplit hcut hstill
      refine ⟨r', hresolve', ?_⟩
      cases r' with
      | direct file => exact .direct
      | derived source' chain' extension' =>
          obtain ⟨-, stem', hsplit', cut', hcut', rfl, hsource', hnearest⟩ :=
            resolveIn_eq_derived.1 hresolve'
          obtain ⟨rfl, rfl⟩ := Prod.mk.inj (Option.some.inj (hsplit.symm.trans hsplit'))
          -- The base that had a file still has one, so no shorter one is taken.
          have hle : cut'.tokens.length ≤ cut.tokens.length := by
            refine Nat.le_of_not_lt fun hlt => ?_
            rw [hnearest cut hcut hlt] at hstill
            cases hstill
          rcases Nat.lt_or_eq_of_le hle with hlt | heq
          · obtain ⟨c, hc, hfile⟩ := exists_of_firstAt hsource
            obtain ⟨c', hc', hfile'⟩ := exists_of_firstAt hsource'
            exact .longer (answeredFrom_of_cut hsplit hcut hc (fileAt_eq_some.1 hfile).1)
              (answeredFrom_of_cut hsplit hcut' hc' (fileAt_eq_some.1 hfile').1)
              ((length_base_lt_iff hcut' hcut).2 hlt)
          · obtain rfl := cut_eq_of_length_eq hcut' hcut heq
            obtain ⟨c, hc, c', hc', hpath, hpath', hearlier⟩ := h.exists_idxOf_le hsource hsource'
            exact .same hsplit (answeredFrom_of_cut hsplit hcut hc hpath)
              (answeredFrom_of_cut hsplit hcut hc' hpath') hearlier

/-- What a path is answered from depends on the files that may answer it only. -/
theorem resolveIn_congr (h : ∀ name, MayAnswer fallbacks path name →
      fileAt look name = fileAt look' name) :
    resolveIn look fallbacks path = resolveIn look' fallbacks path := by
  rw [resolveIn_eq, resolveIn_eq, h _ .itself]
  cases hsplit : splitExtension path.fileName with
  | none => rfl
  | some parts =>
      obtain ⟨stem, extension⟩ := parts
      have hfirst : ∀ cut ∈ cuts stem, firstAt look fallbacks path.dir cut.base extension
          = firstAt look' fallbacks path.dir cut.base extension := by
        intro cut hcut
        rw [firstAt_eq_findSome?, firstAt_eq_findSome?]
        exact findSome?_congr fun c hc => h _ (.base hsplit (isBase_of_cut hcut) hc)
      have hcuts : ((cuts stem).findSome? fun cut =>
            (firstAt look fallbacks path.dir cut.base extension).map fun source =>
              Resolution.derived source (Chain.ofTexts cut.tokens) extension)
          = (cuts stem).findSome? fun cut =>
            (firstAt look' fallbacks path.dir cut.base extension).map fun source =>
              Resolution.derived source (Chain.ofTexts cut.tokens) extension :=
        findSome?_congr fun cut hcut => by rw [hfirst cut hcut]
      simp only [hcuts]

/-- Nothing is added at a path that may answer a request: it is answered as before. -/
theorem Extends.resolveIn_eq (h : Extends look look')
    (hadded : ∀ name, HasFile look' name → ¬ HasFile look name → ¬ MayAnswer fallbacks path name) :
    resolveIn look' fallbacks path = resolveIn look fallbacks path := by
  refine resolveIn_congr fun name hname => h.fileAt_eq fun hfile => ?_
  by_contra hnew
  exact hadded name hfile hnew hname

end Answers

/-! ### Requests that are not checked -/

section Unchecked

variable {γ κ η : Type} {engine : Engine RecordedFiles γ κ η} {refusals : Refusals}

/-- A file is put in place, be that in the place of another. -/
theorem covers_insert (files : Catalog StoredFile) (name : String) (file : StoredFile) :
    Covers files.look (files.insert name file).look := by
  rintro path ⟨stat, hlook, hisFile⟩
  by_cases heq : path = name
  · exact ⟨file.stat, by rw [Catalog.look, Catalog.get?_insert, if_pos heq]; rfl, rfl⟩
  · exact ⟨stat, by rwa [Catalog.look, Catalog.get?_insert, if_neg heq], hisFile⟩

/-- A file is put where there was none. -/
theorem extends_insert {files : Catalog StoredFile} {name : String} (file : StoredFile)
    (hvacant : ¬ HasFile files.look name) : Extends files.look (files.insert name file).look := by
  intro path stat hlook hisFile
  have hne : path ≠ name := by
    rintro rfl
    exact hvacant ⟨stat, hlook, hisFile⟩
  rwa [Catalog.look, Catalog.get?_insert, if_neg hne]

/-- Keeping a derivative takes no file away. -/
theorem Engine.covers_keepOnDisk (hfiles : engine.files = RecordedFiles.fileSystem refusals)
    (path : RequestPath) (chain : Chain) (body : Content) (w : World RecordedFiles γ κ) :
    Covers w.files.look ((engine.keepOnDisk path chain body).run.run w).2.files.look := by
  obtain ⟨files, hkeeps, hrun⟩ := engine.keepOnDisk_cases path chain body w
  rw [hrun]
  cases hkeeps with
  | bare => exact fun _ hfile => hfile
  | written hchain hwrite =>
      rw [hfiles] at hwrite
      rcases RecordedFiles.write_cases hwrite with ⟨e, rfl⟩ | rfl
      · exact fun _ hfile => hfile
      · exact covers_insert _ _ _

/-- A request that is not checked leaves every file as it is. -/
theorem Engine.extends_serve (hfiles : engine.files = RecordedFiles.fileSystem refusals)
    (raw : String) {w : World RecordedFiles γ κ} (hunpicked : w.sampler.next.1 = false) :
    Extends w.files.look ((engine.serve raw).run.run w).2.files.look := by
  unfold RecordedFiles.look
  cases hbackend : engine.backend with
  | store cache ttl =>
      have hkept : ((engine.serve raw).run.run w).2.files.memory.files = w.files.memory.files :=
        Engine.keepsFiles_in_store hfiles hbackend raw w
      rw [hkept]
      exact .refl _
  | disk =>
      cases hraw : RequestPath.ofRequest raw with
      | error e =>
          rw [Engine.run_serve_unnamed hraw w]
          exact .refl _
      | ok path =>
          obtain ⟨gone, made, hchanges⟩ := Engine.exists_changes hfiles hbackend hraw w
          have hgone : gone = [] := by
            have hfront := hchanges.removed
            rw [hunpicked] at hfront
            exact List.prefix_nil.1 hfront
          subst hgone
          by_cases hpersists : engine.Persists path w made ((engine.serve raw).run.run w).1
          · obtain ⟨served, hserved, -⟩ := hpersists.derived
            obtain ⟨source, chain, extension, hsettled, -⟩ := hpersists.settled
            obtain ⟨used, hused, -, hvacant⟩ := hchanges.vacant source chain extension hsettled
            have hused : used = w.files.memory.files := by
              rcases List.mem_cons.1 hused with heq | hmem
              · exact heq
              · exact List.mem_singleton.1 hmem
            rw [hchanges.kept hpersists served hserved]
            exact extends_insert _ (hused ▸ hvacant)
          · rw [hchanges.unkept hpersists]
            exact .refl _

/-- What comes of requests that are not checked, one after the other, while the clock runs. -/
inductive Engine.Unchecked (engine : Engine RecordedFiles γ κ η) (w₀ : World RecordedFiles γ κ) :
    World RecordedFiles γ κ → Prop
  | start : engine.Unchecked w₀ w₀
  | later {w : World RecordedFiles γ κ} (now : Timestamp) (h : engine.Unchecked w₀ w) :
      engine.Unchecked w₀ { w with files := w.files.atTime now }
  | serve {w : World RecordedFiles γ κ} (raw : String) (h : engine.Unchecked w₀ w)
      (hunpicked : w.sampler.next.1 = false) :
      engine.Unchecked w₀ ((engine.serve raw).run.run w).2

theorem Engine.Unchecked.extends (hfiles : engine.files = RecordedFiles.fileSystem refusals)
    {w₀ w : World RecordedFiles γ κ} (h : engine.Unchecked w₀ w) :
    Extends w₀.files.look w.files.look := by
  induction h with
  | start => exact .refl _
  | later now _ ih => exact ih
  | serve raw _ hunpicked ih => exact ih.trans (Engine.extends_serve hfiles raw hunpicked)

end Unchecked

/-! ### Resolution as files are added -/

/-- When files are added, a path that is answered is still answered, from a base that is no shorter
and with a candidate that is no later; and unless one was added at a path that may answer it, the
answer is the same, be that an error. So keeping a derivative never makes another path unresolvable,
and neither do requests that are not checked, whatever reads and writes are refused. -/
theorem resolution_grows {γ κ η : Type} {engine : Engine RecordedFiles γ κ η} {refusals : Refusals}
    (hfiles : engine.files = RecordedFiles.fileSystem refusals) (path : RequestPath) :
    (∀ fallbacks look look', Extends look look' →
      (∀ r, resolveIn look fallbacks path = .ok r →
        ∃ r', resolveIn look' fallbacks path = .ok r' ∧ NoFarther fallbacks path r r' ∧
          ∀ file, r = .direct file → r' = .direct file) ∧
      ((∀ name, HasFile look' name → ¬ HasFile look name → ¬ MayAnswer fallbacks path name) →
        resolveIn look' fallbacks path = resolveIn look fallbacks path)) ∧
    ∀ w₀ w, (∃ kept chain body, w = ((engine.keepOnDisk kept chain body).run.run w₀).2) ∨
        engine.Unchecked w₀ w →
      ∀ r, ((engine.resolved path).run.run w₀).1 = .ok r →
        ∃ r', ((engine.resolved path).run.run w).1 = .ok r' ∧
          NoFarther engine.fallbacks path r r' := by
  refine ⟨fun fallbacks look look' hextends => ⟨fun r hresolve => ?_, hextends.resolveIn_eq⟩,
    fun w₀ w hafter r hresolved => ?_⟩
  · obtain ⟨r', hresolve', hfarther⟩ := hextends.covers.exists_resolveIn hresolve
    refine ⟨r', hresolve', hfarther, ?_⟩
    rintro file rfl
    have hdirect : resolveIn look' fallbacks path = .ok (.direct file) :=
      resolveIn_eq_direct.2 (hextends.found (resolveIn_eq_direct.1 hresolve))
    exact Except.ok.inj (hresolve'.symm.trans hdirect)
  · have hcovers : Covers w₀.files.look w.files.look := by
      rcases hafter with ⟨kept, chain, body, rfl⟩ | hunchecked
      · exact Engine.covers_keepOnDisk hfiles kept chain body w₀
      · exact (hunchecked.extends hfiles).covers
    have hstat := RecordedFiles.looks_stat refusals hfiles
    rw [Engine.run_resolved hstat] at hresolved ⊢
    have hresolve := eq_ok_of_mapError (eq_ok_of_mapError hresolved)
    obtain ⟨r', hresolve', hfarther⟩ := hcovers.exists_resolveIn hresolve
    refine ⟨r', ?_, hfarther⟩
    rw [hresolve']
    rfl

open Refused Sketching in
/-- Once a derivative of a photo is kept, a longer one is made of that. -/
theorem resolution_grows_photo :
    let photo : Catalog StoredFile :=
      Catalog.empty.insert "a.jpg" ⟨.text "B", instant 3, instant 3⟩
    let w₀ : World RecordedFiles Unit Codec.Sketch.Record :=
      ⟨⟨⟨photo, instant 4⟩, []⟩, (), #[], ⟨1, 1⟩⟩
    let w := (((engine "").serve "a_q1.jpg").run.run w₀).2
    ∃ r r', (((engine "").resolved path).run.run w₀).1 = .ok r ∧ r.file.path = "a.jpg" ∧
      (((engine "").resolved path).run.run w).1 = .ok r' ∧ r'.file.path = "a_q1.jpg" ∧
      NoFarther .builtIn path r r' := by
  intro photo w₀ w
  have hbefore : (((engine "").resolved path).run.run w₀).1.toOption.map (·.file.path)
      = some "a.jpg" := by decide +kernel
  have hafter : (((engine "").resolved path).run.run w).1.toOption.map (·.file.path)
      = some "a_q1.jpg" := by decide +kernel
  obtain ⟨r, hr, hfile⟩ := Option.map_eq_some_iff.1 hbefore
  have hunchecked : (engine "").Unchecked w₀ w := .serve "a_q1.jpg" .start (by decide)
  have hfiles : (engine "").files = RecordedFiles.fileSystem (refusals "") := rfl
  obtain ⟨-, hgrows⟩ := resolution_grows hfiles path
  obtain ⟨r', hr', hfarther⟩ := hgrows w₀ w (Or.inr hunchecked) r (eq_ok_of_toOption hr)
  rw [hr'] at hafter
  exact ⟨r, r', eq_ok_of_toOption hr, hfile, hr', Option.some.inj hafter, hfarther⟩

end Rendition

import Rendition.Proofs.Serving
import Rendition.Proofs.Staleness

/-!
# Rendition.Proofs.Sweeping

What a sweep leaves for a request. A request starts at a cut of its stem, at a file with one of the
extensions that may stand for the requested one (`Start`). If that file is stale, a sweep spares the
last file of its ancestry. That one lies at a cut of the stem, too, but it was found by the
extension of the stale file and not by the requested one. So the request is still resolved, whatever
else there is on disk, exactly if everything that may stand for the extension of the stale file may
stand for the requested one (`resolvable_after_sweep_iff`).
-/

namespace Rendition

open Time

/-! ### What a catalog shows for a base -/

namespace Catalog

variable {files : Catalog StoredFile} {fallbacks : Fallbacks} {dir base extension : String}

/-- A file that is found for a base has one of the extensions that are looked for. -/
theorem exists_of_firstAt {found : FoundFile}
    (h : firstAt files.look fallbacks dir base extension = some found) :
    ∃ c ∈ fallbacks.candidates extension, ∃ file,
      files.get? (pathOf dir base c) = some file ∧ found = ⟨pathOf dir base c, file.stat⟩ := by
  obtain ⟨c, hc, hfile⟩ := Rendition.exists_of_firstAt h
  obtain ⟨file, hget, rfl⟩ := fileAt_look.1 hfile
  exact ⟨c, hc, file, hget, rfl⟩

/-- Something is found for a base if a file with one of those extensions is there. -/
theorem firstAt_isSome :
    (firstAt files.look fallbacks dir base extension).isSome ↔
      ∃ c ∈ fallbacks.candidates extension, (files.get? (pathOf dir base c)).isSome := by
  constructor
  · intro h
    obtain ⟨found, hfound⟩ := Option.isSome_iff_exists.1 h
    obtain ⟨c, hc, file, hget, -⟩ := exists_of_firstAt hfound
    exact ⟨c, hc, Option.isSome_of_eq_some hget⟩
  · rintro ⟨c, hc, hsome⟩
    cases hfirst : firstAt files.look fallbacks dir base extension with
    | some found => rfl
    | none =>
        have hgone := fileAt_look_eq_none.1 (firstAt_eq_none.1 hfirst c hc)
        simp [hgone] at hsome

end Catalog

/-! ### Where a request starts -/

/-- A request for a path is answered from the file on disk at a cut of its stem, with an extension
that may stand for the requested one. With fewer tokens no file is found. -/
structure Start (look : String → Option FileStat) (fallbacks : Fallbacks) (path : RequestPath)
    (r : Resolution) (onDisk : RequestPath) (stem ext : String) (cut : Cut) (c : String) :
    Prop where
  split : splitExtension path.fileName = some (stem, ext)
  mem_cuts : cut ∈ cuts stem
  candidate : c ∈ fallbacks.candidates ext
  text : onDisk.text = r.file.path
  dir : onDisk.dir = path.dir
  splitOnDisk : splitExtension onDisk.fileName = some (cut.base, c)
  found : fileAt look onDisk.text = some r.file
  nearest : ∀ other ∈ cuts stem, other.tokens.length < cut.tokens.length →
    firstAt look fallbacks path.dir other.base ext = none

section Start

variable {look : String → Option FileStat} {fallbacks : Fallbacks} {path onDisk : RequestPath}
  {r : Resolution} {stem ext : String} {cut : Cut} {c : String}

namespace Start

variable (h : Start look fallbacks path r onDisk stem ext cut c)

include h

theorem isExtension : IsExtension c := RequestPath.isExtension h.splitOnDisk

theorem text_eq : onDisk.text = pathOf path.dir cut.base c := by
  rw [text_eq_pathOf h.splitOnDisk, h.dir]

theorem ofRequest : RequestPath.ofRequest r.file.path = .ok onDisk := by
  rw [← h.text]
  exact onDisk.ofRequest_text

end Start

/-- A request for a path with an extension starts somewhere. -/
theorem exists_start (hplain : fallbacks.Plain)
    (hsplit : splitExtension path.fileName = some (stem, ext))
    (hresolve : resolveIn look fallbacks path = .ok r) :
    ∃ onDisk cut c, Start look fallbacks path r onDisk stem ext cut c := by
  cases r with
  | direct found =>
      have hfile := resolveIn_eq_direct.1 hresolve
      have hwhole := whole_mem_cuts (splitExtension_eq_some.1 hsplit).2.1
      exact ⟨path, ⟨stem, []⟩, ext, hsplit, hwhole, List.mem_cons_self,
        (fileAt_eq_some.1 hfile).1.symm, rfl, hsplit, hfile, by simp⟩
  | derived source chain extension =>
      obtain ⟨-, stem', hsplit', cut, hcut, -, hfound, hnearest⟩ := resolveIn_eq_derived.1 hresolve
      obtain ⟨rfl, rfl⟩ := Prod.mk.inj (Option.some.inj (hsplit.symm.trans hsplit'))
      obtain ⟨c, hc, hfile⟩ := exists_of_firstAt hfound
      have hext := hplain.isExtension (RequestPath.isExtension hsplit) hc
      obtain ⟨onDisk, htext, hdir, hsplitOnDisk⟩ := exists_level hsplit hcut hext
      have hpath : source.path = onDisk.text := htext ▸ (fileAt_eq_some.1 hfile).1
      exact ⟨onDisk, cut, c, hsplit, hcut, hc, hpath.symm, hdir, hsplitOnDisk, htext ▸ hfile,
        hnearest⟩

end Start

/-! ### Sweeps -/

/-- A request for a path is resolved, and a sweep of the file on disk that it would be answered from
finds that stale and removes it. -/
structure Swept (fallbacks : Fallbacks) (path : RequestPath) (m m' : MemoryFiles)
    (onDisk : RequestPath) : Prop where
  resolved : ∃ r, resolveIn m.look fallbacks path = .ok r ∧
    RequestPath.ofRequest r.file.path = .ok onDisk
  swept : (sweep MemoryFiles.fileSystem fallbacks onDisk).run.run m = (.ok true, m')

section Swept

variable {fallbacks : Fallbacks} {path onDisk : RequestPath} {m m' : MemoryFiles}

/-- A sweep that removes something leaves what is not doomed. -/
theorem Swept.exists_doomed (h : Swept fallbacks path m m' onDisk) :
    ∃ doomed, stalenessIn m.look fallbacks onDisk = .stale doomed ∧
      m' = { m with files := m.files.without doomed } := by
  have hrun := h.swept
  rw [run_sweep (MemoryFiles.looks_stat rfl)] at hrun
  cases hstale : stalenessIn m.look fallbacks onDisk with
  | fresh =>
      rw [hstale] at hrun
      cases (Prod.mk.inj hrun).1
  | stale doomed =>
      rw [hstale] at hrun
      simp only at hrun
      rw [MemoryFiles.run_removeAll] at hrun
      exact ⟨doomed, rfl, (Prod.mk.inj hrun).2.symm⟩

theorem Swept.of_stale {r : Resolution} {doomed : List String}
    (hresolve : resolveIn m.look fallbacks path = .ok r)
    (hpath : RequestPath.ofRequest r.file.path = .ok onDisk)
    (hstale : stalenessIn m.look fallbacks onDisk = .stale doomed) :
    Swept fallbacks path m { m with files := m.files.without doomed } onDisk := by
  refine ⟨⟨r, hresolve, hpath⟩, ?_⟩
  rw [run_sweep (MemoryFiles.looks_stat rfl), hstale]
  simp only
  rw [MemoryFiles.run_removeAll]
  rfl

/-- A request whose file is swept has an extension, and starts at that file. -/
theorem Swept.exists_start (hplain : fallbacks.Plain) (h : Swept fallbacks path m m' onDisk) :
    ∃ r stem ext cut c, Start m.look fallbacks path r onDisk stem ext cut c := by
  obtain ⟨r, hresolve, hpath⟩ := h.resolved
  obtain ⟨doomed, hstale, -⟩ := h.exists_doomed
  -- What is stale has an ancestry, and what is derived was cut, so the path has an extension.
  have hsplit : ∃ stem ext, splitExtension path.fileName = some (stem, ext) := by
    cases r with
    | direct found =>
        have hfile := (fileAt_eq_some.1 (resolveIn_eq_direct.1 hresolve)).1
        rw [Resolution.file, hfile, path.ofRequest_text] at hpath
        obtain rfl := Except.ok.inj hpath
        obtain ⟨stem, ext, hsplit, -⟩ := exists_generatedCut_of_stale hstale
        exact ⟨stem, ext, hsplit⟩
    | derived source chain ext =>
        obtain ⟨-, stem, hsplit, -⟩ := resolveIn_eq_derived.1 hresolve
        exact ⟨stem, ext, hsplit⟩
  obtain ⟨stem, ext, hsplit⟩ := hsplit
  obtain ⟨start, cut, c, hstart⟩ := Rendition.exists_start hplain hsplit hresolve
  obtain rfl := Except.ok.inj (hpath.symm.trans hstart.ofRequest)
  exact ⟨r, stem, ext, cut, c, hstart⟩

/-- The file that a sweep spares lies at a cut of the stem behind the one that the request started
at; its extension may stand for that of the swept file. -/
theorem Start.exists_spared {r : Resolution} {stem ext c : String} {cut : Cut}
    {doomed : List String} {files : Catalog StoredFile}
    (h : Start files.look fallbacks path r onDisk stem ext cut c)
    (hstale : stalenessIn files.look fallbacks onDisk = .stale doomed) :
    ∃ last ∈ generatedCuts cut.base, ∃ x ∈ fallbacks.candidates c,
      ⟨last.base, last.tokens ++ cut.tokens⟩ ∈ cuts stem ∧
      ((files.without doomed).get? (pathOf path.dir last.base x)).isSome ∧
      ∀ other ∈ generatedCuts cut.base,
        (firstAt files.look fallbacks path.dir other.base c).isSome →
        other.tokens.length ≤ last.tokens.length := by
  obtain ⟨last, hlast, level, hlevel, hspared, hmost⟩ :=
    Rendition.exists_spared h.splitOnDisk hstale
  rw [h.dir] at hlevel hmost
  obtain ⟨x, hx, file, hget, rfl⟩ := Catalog.exists_of_firstAt hlevel
  refine ⟨last, hlast, x, hx, cut_trans h.mem_cuts (mem_generatedCuts.1 hlast).1, ?_, hmost⟩
  rw [Catalog.get?_without, if_neg hspared]
  exact Option.isSome_of_eq_some hget

/-- A request is still resolved after a sweep if what may stand for the extension of the swept file
may stand for the requested one. -/
theorem Start.resolvable {r : Resolution} {stem ext c : String} {cut : Cut} {doomed : List String}
    {files : Catalog StoredFile} (h : Start files.look fallbacks path r onDisk stem ext cut c)
    (hstale : stalenessIn files.look fallbacks onDisk = .stale doomed)
    (hstands : ∀ x ∈ fallbacks.candidates c, x ∈ fallbacks.candidates ext) :
    ∃ r', resolveIn (files.without doomed).look fallbacks path = .ok r' := by
  obtain ⟨last, -, x, hx, hcut, hleft, -⟩ := h.exists_spared hstale
  exact resolveIn_ok_of_cut h.split hcut (Catalog.firstAt_isSome.2 ⟨x, hstands x hx, hleft⟩)

end Swept

/-! ### A photo and a derivative of it -/

namespace Sketching

variable {fallbacks : Fallbacks} {path : RequestPath} {ext c x : String}

/-- The path of the photo, or of a derivative of it, with an extension. -/
theorem exists_path (base : String) (hbase : base ∈ ["a", "a_q1", "a_q1_q2"])
    (hc : IsExtension c) :
    ∃ q : RequestPath, q.text = pathOf "" base c ∧ q.dir = "" ∧
      splitExtension q.fileName = some (base, c) := by
  have hsplit : splitExtension (RequestPath.single "a_q1_q2.jpg" (by decide)).fileName
      = some ("a_q1_q2", "jpg") := by decide
  have hcut : ∃ cut ∈ cuts "a_q1_q2", cut.base = base := by
    revert base
    decide
  obtain ⟨cut, hmem, rfl⟩ := hcut
  exact exists_level hsplit hmem hc

section Derivative

variable {files : Catalog StoredFile} (hsplit : splitExtension path.fileName = some ("a_q1", ext))
  (hdir : path.dir = "")

include hsplit hdir

/-- A derivative goes back to the photo only. -/
theorem stalenessIn_derivative {file : StoredFile} {source : FoundFile}
    (hfile : files.get? path.text = some file)
    (hsource : firstAt files.look fallbacks "" "a" ext = some source)
    (hnewer : file.modified < source.stat.newest) :
    stalenessIn files.look fallbacks path = .stale [path.text] := by
  have hgenerated : generatedCuts "a_q1" = [⟨"a", ["q1"]⟩] := by decide
  have hancestors : ancestorsIn files.look fallbacks path = [source] := by
    rw [ancestorsIn_eq hsplit, hgenerated, hdir]
    simp [hsource]
  refine stalenessIn_eq_stale.2 ⟨_, Catalog.fileAt_look.2 ⟨file, hfile, rfl⟩, ?_, ?_⟩
  · exact ⟨source, by simp [hancestors], hnewer⟩
  · simp [hancestors]

/-- A request for a derivative is answered from the nearest file there is. -/
theorem resolveIn_derivative (hnone : files.get? path.text = none) :
    resolveIn files.look fallbacks path =
      match firstAt files.look fallbacks "" "a_q1" ext with
      | some near => .ok (.derived near (Chain.ofTexts []) ext)
      | none =>
        match firstAt files.look fallbacks "" "a" ext with
        | some source => .ok (.derived source (Chain.ofTexts ["q1"]) ext)
        | none => .error (.noSource path) := by
  have hcuts : cuts "a_q1" = [⟨"a_q1", []⟩, ⟨"a", ["q1"]⟩] := by decide
  rw [resolveIn_eq, Catalog.fileAt_look_eq_none.2 hnone, hsplit]
  simp only [hcuts, hdir, List.findSome?_cons, List.findSome?_nil]
  cases firstAt files.look fallbacks "" "a_q1" ext with
  | some near => rfl
  | none => cases firstAt files.look fallbacks "" "a" ext <;> rfl

end Derivative

/-- The photo and the derivative have different paths, whatever their extensions. -/
theorem pathOf_photo_ne : pathOf "" "a" x ≠ pathOf "" "a_q1" c := by
  have hcut : ⟨"a_q1", []⟩ ∈ cuts "a_q1" := by decide
  have hcut' : ⟨"a", ["q1"]⟩ ∈ cuts "a_q1" := by decide
  exact (pathOf_ne_pathOf hcut hcut' (by decide)).symm

/-- A photo that may stand for each derivative of it, and is newer. -/
structure Newer (fallbacks : Fallbacks) (files : Catalog StoredFile) (y : String)
    (photo : StoredFile) : Prop where
  there : files.get? (pathOf "" "a" y) = some photo
  only : ∀ x, (files.get? (pathOf "" "a" x)).isSome → x = y
  older : ∀ c file, files.get? (pathOf "" "a_q1" c) = some file →
    y ∈ fallbacks.candidates c ∧ file.modified < photo.stat.newest

/-- A request for which a derivative may stand starts at one, and that is stale. -/
theorem Newer.stale {files : Catalog StoredFile} {y : String} {photo : StoredFile}
    (h : Newer fallbacks files y photo) (hplain : fallbacks.Plain)
    (hsplit : splitExtension path.fileName = some ("a_q1", ext)) (hdir : path.dir = "")
    {c : String} (hc : c ∈ fallbacks.candidates ext)
    (hthere : (files.get? (pathOf "" "a_q1" c)).isSome) :
    (∃ r, resolveIn files.look fallbacks path = .ok r) ∧
    ∀ r, resolveIn files.look fallbacks path = .ok r →
      ∃ onDisk c', RequestPath.ofRequest r.file.path = .ok onDisk ∧
        onDisk.text = pathOf "" "a_q1" c' ∧ onDisk.extension = some c' ∧
        (files.get? (pathOf "" "a_q1" c')).isSome ∧
        stalenessIn files.look fallbacks onDisk = .stale [onDisk.text] := by
  have hcuts : cuts "a_q1" = [⟨"a_q1", []⟩, ⟨"a", ["q1"]⟩] := by decide
  have hmem : ⟨"a_q1", []⟩ ∈ cuts "a_q1" := by simp [hcuts]
  have hwhole : (firstAt files.look fallbacks path.dir "a_q1" ext).isSome := by
    rw [hdir]
    exact Catalog.firstAt_isSome.2 ⟨c, hc, hthere⟩
  refine ⟨resolveIn_ok_of_cut hsplit hmem hwhole, fun r hresolve => ?_⟩
  obtain ⟨onDisk, cut, c', hstart⟩ := exists_start hplain hsplit hresolve
  -- A file with the whole stem is nearer than the photo.
  have hcut : cut = ⟨"a_q1", []⟩ := by
    have hstartCut := hstart.mem_cuts
    rw [hcuts] at hstartCut
    rcases List.mem_cons.1 hstartCut with heq | hphoto
    · exact heq
    · obtain rfl := List.mem_singleton.1 hphoto
      have hnone := hstart.nearest _ hmem (by simp)
      simp [hnone] at hwhole
  subst hcut
  have htext : onDisk.text = pathOf "" "a_q1" c' := hdir ▸ hstart.text_eq
  obtain ⟨file, hget, -⟩ := Catalog.fileAt_look.1 hstart.found
  obtain ⟨hy, holder⟩ := h.older c' file (htext ▸ hget)
  have hsource : (firstAt files.look fallbacks "" "a" c').isSome :=
    Catalog.firstAt_isSome.2 ⟨y, hy, Option.isSome_of_eq_some h.there⟩
  obtain ⟨source, hsource⟩ := Option.isSome_iff_exists.1 hsource
  obtain ⟨x, -, file', hget', rfl⟩ := Catalog.exists_of_firstAt hsource
  obtain rfl := h.only x (Option.isSome_of_eq_some hget')
  obtain rfl := Option.some.inj (h.there.symm.trans hget')
  exact ⟨onDisk, c', hstart.ofRequest, htext, RequestPath.extension_eq hstart.splitOnDisk,
    htext ▸ Option.isSome_of_eq_some hget,
    stalenessIn_derivative hstart.splitOnDisk (hstart.dir.trans hdir) hget hsource holder⟩

/-- A photo with one extension, and an older derivative of it with another one. -/
def outdated (c x : String) : MemoryFiles where
  files := (Catalog.empty.insert (pathOf "" "a_q1" c) ⟨.text "A|q1", instant 1, instant 1⟩).insert
    (pathOf "" "a" x) ⟨.text "B", instant 2, instant 2⟩
  now := instant 2

theorem get?_outdated (name : String) :
    (outdated c x).files.get? name =
      if name = pathOf "" "a" x then some ⟨.text "B", instant 2, instant 2⟩
      else if name = pathOf "" "a_q1" c then some ⟨.text "A|q1", instant 1, instant 1⟩
      else none := by
  simp [outdated]

theorem eq_of_outdated {c' : String}
    (h : ((outdated c x).files.get? (pathOf "" "a_q1" c')).isSome) : c' = c := by
  rw [get?_outdated, if_neg pathOf_photo_ne.symm] at h
  split at h
  · next heq => exact pathOf_inj heq
  · cases h

theorem newer_outdated (hx : x ∈ fallbacks.candidates c) :
    Newer fallbacks (outdated c x).files x ⟨.text "B", instant 2, instant 2⟩ where
  there := by rw [get?_outdated, if_pos rfl]
  only x' hthere := by
    rw [get?_outdated] at hthere
    split at hthere
    · next heq => exact pathOf_inj heq
    · simp [pathOf_photo_ne] at hthere
  older c' file hget := by
    rw [get?_outdated, if_neg pathOf_photo_ne.symm] at hget
    split at hget
    · next heq =>
        obtain rfl := Option.some.inj hget
        obtain rfl := pathOf_inj heq
        rw [StoredFile.newest_stat]
        exact ⟨hx, (by decide : instant 1 < instant 2)⟩
    · cases hget

/-- Without the outdated derivative the request is not resolved, if the photo may not stand for
it. -/
theorem unresolved_outdated (hsplit : splitExtension path.fileName = some ("a_q1", ext))
    (hdir : path.dir = "") (hx : x ∉ fallbacks.candidates ext) :
    resolveIn ((outdated c x).files.without [pathOf "" "a_q1" c]).look fallbacks path
      = .error (.noSource path) := by
  have hleft : ∀ name, ((outdated c x).files.without [pathOf "" "a_q1" c]).get? name
      = if name = pathOf "" "a" x then some ⟨.text "B", instant 2, instant 2⟩ else none := by
    intro name
    rw [Catalog.get?_without, get?_outdated]
    by_cases hphoto : name = pathOf "" "a" x
    · simp [hphoto, pathOf_photo_ne]
    · by_cases hderivative : name = pathOf "" "a_q1" c
      · simp [hderivative, pathOf_photo_ne.symm]
      · simp [hphoto, hderivative]
  have hpath : path.text = pathOf "" "a_q1" ext := hdir ▸ text_eq_pathOf hsplit
  have hnone : ∀ base, (base = "a" ∨ base = "a_q1") →
      firstAt ((outdated c x).files.without [pathOf "" "a_q1" c]).look fallbacks "" base ext
        = none := by
    intro base hbase
    refine firstAt_eq_none.2 fun c' hc' => Catalog.fileAt_look_eq_none.2 ?_
    rw [hleft, if_neg]
    rcases hbase with rfl | rfl
    · intro heq
      exact hx (pathOf_inj heq ▸ hc')
    · exact pathOf_photo_ne.symm
  rw [resolveIn_derivative hsplit hdir, hnone "a_q1" (Or.inr rfl), hnone "a" (Or.inl rfl)]
  rw [hleft, hpath, if_neg pathOf_photo_ne.symm]

end Sketching

/-! ### Which requests stay resolved -/

/-- A swept file has an extension that may stand for the requested one. A request with one extension
whose file with the other is swept is still resolved, whatever files there are, if and only if
everything that may stand for the extension of the file may stand for the requested one. -/
theorem resolvable_after_sweep_iff {fallbacks : Fallbacks} (hplain : fallbacks.Plain) :
    (∀ (path onDisk : RequestPath) (m m' : MemoryFiles), Swept fallbacks path m m' onDisk →
      ∃ ext c, path.extension = some ext ∧ onDisk.extension = some c ∧
        c ∈ fallbacks.candidates ext) ∧
    ∀ (ext c : String), IsExtension ext → c ∈ fallbacks.candidates ext →
      ((∀ (path onDisk : RequestPath) (m m' : MemoryFiles), path.extension = some ext →
        onDisk.extension = some c → Swept fallbacks path m m' onDisk →
        ∃ r, resolveIn m'.look fallbacks path = .ok r) ↔
      ∀ x ∈ fallbacks.candidates c, x ∈ fallbacks.candidates ext) := by
  constructor
  · intro path onDisk m m' h
    obtain ⟨r, stem, ext, cut, c, hstart⟩ := h.exists_start hplain
    exact ⟨ext, c, RequestPath.extension_eq hstart.split,
      RequestPath.extension_eq hstart.splitOnDisk, hstart.candidate⟩
  · intro ext c hext hc
    constructor
    · intro hresolvable x hx
      -- Of a photo with that extension and an older derivative, the sweep leaves the photo only.
      obtain ⟨path, -, hdir, hsplit⟩ := Sketching.exists_path "a_q1" (by decide) hext
      have hthere : ((Sketching.outdated c x).files.get? (pathOf "" "a_q1" c)).isSome := by
        rw [Sketching.get?_outdated, if_neg Sketching.pathOf_photo_ne.symm, if_pos rfl]
        rfl
      obtain ⟨⟨r, hresolve⟩, hstart⟩ :=
        (Sketching.newer_outdated hx).stale hplain hsplit hdir hc hthere
      obtain ⟨onDisk, c', hpath, htext, hext', hthere', hstale⟩ := hstart r hresolve
      obtain rfl : c' = c := Sketching.eq_of_outdated hthere'
      by_cases hx' : x ∈ fallbacks.candidates ext
      · exact hx'
      · have hnone := Sketching.unresolved_outdated (c := c') hsplit hdir hx'
        rw [← htext] at hnone
        obtain ⟨r', hresolve'⟩ := hresolvable path onDisk _ _ (RequestPath.extension_eq hsplit)
          hext' (.of_stale hresolve hpath hstale)
        cases hnone.symm.trans hresolve'
    · intro hstands path onDisk m m' hpath honDisk h
      obtain ⟨doomed, hstale, rfl⟩ := h.exists_doomed
      obtain ⟨r, stem, ext', cut, c', hstart⟩ := h.exists_start hplain
      have hext' := RequestPath.extension_eq hstart.split
      have hc' := RequestPath.extension_eq hstart.splitOnDisk
      obtain rfl := Option.some.inj (hpath.symm.trans hext')
      obtain rfl := Option.some.inj (honDisk.symm.trans hc')
      exact hstart.resolvable hstale hstands

/-- With the built-in table a request for a png that starts at a jpg stays resolved, and one for a
tga that starts at a jpg may not. -/
theorem resolvable_after_sweep_builtIn :
    (∀ (path onDisk : RequestPath) (m m' : MemoryFiles), path.extension = some "png" →
      onDisk.extension = some "jpg" → Swept .builtIn path m m' onDisk →
      ∃ r, resolveIn m'.look .builtIn path = .ok r) ∧
    ¬ ∀ (path onDisk : RequestPath) (m m' : MemoryFiles), path.extension = some "tga" →
      onDisk.extension = some "jpg" → Swept .builtIn path m m' onDisk →
      ∃ r, resolveIn m'.look .builtIn path = .ok r := by
  have hiff := (resolvable_after_sweep_iff Fallbacks.plain_builtIn).2
  refine ⟨(hiff "png" "jpg" (by decide) (by decide)).2 (by decide), fun hall => ?_⟩
  have hgif := (hiff "tga" "jpg" (by decide) (by decide)).1 hall "gif" (by decide)
  exact absurd hgif (by decide)

/-- A derivative of a gif lies on disk as a jpg, and the gif is newer. A request for the same as a
tga is answered from the jpg. If it is picked for a check, the jpg is swept, and the gif may not
stand for a tga: the request fails. -/
theorem swept_request_unresolved :
    let path := RequestPath.single "a_q1.tga" (by decide)
    let onDisk := RequestPath.single "a_q1.jpg" (by decide)
    let m := Sketching.outdated "jpg" "gif"
    let m' : MemoryFiles := { m with files := m.files.without [onDisk.text] }
    let serve (s : Sampler) := ((Sketching.engine.serve path.text).run.run ⟨m, (), #[], s⟩).1
    Swept .builtIn path m m' onDisk ∧ (¬ ∃ r, resolveIn m'.look .builtIn path = .ok r) ∧
      (serve ⟨1, 1⟩).toOption.map (·.origin) = some .derived ∧
      (serve ⟨1, 0⟩).toOption.map (·.origin) = none := by
  intro path onDisk m m' serve
  have hsplit : splitExtension path.fileName = some ("a_q1", "tga") := by decide
  have htext : onDisk.text = pathOf "" "a_q1" "jpg" := by decide
  have hswept : Swept .builtIn path m m' onDisk := by
    have hgif : "gif" ∈ Fallbacks.builtIn.candidates "jpg" := by decide
    obtain ⟨⟨r, hresolve⟩, hstart⟩ := (Sketching.newer_outdated hgif).stale Fallbacks.plain_builtIn
      hsplit (by decide) (c := "jpg") (by decide) (by decide)
    obtain ⟨start, c, hpath, hstartText, -, hthere, hstale⟩ := hstart r hresolve
    obtain rfl := Sketching.eq_of_outdated hthere
    obtain rfl := RequestPath.text_injective (htext.trans hstartText.symm)
    exact .of_stale hresolve hpath hstale
  refine ⟨hswept, ?_, by decide +kernel, by decide +kernel⟩
  rintro ⟨r, hresolve⟩
  have hstands : "gif" ∉ Fallbacks.builtIn.candidates "tga" := by decide
  have hnone := Sketching.unresolved_outdated (c := "jpg") hsplit (by decide) hstands
  rw [← htext] at hnone
  cases hnone.symm.trans hresolve

end Rendition

import Rendition.Proofs.Making

/-!
# Rendition.Proofs.MixedExtensions

Sweeps where files and requests have more than one extension. A sweep follows an ancestry by the
extension of the stale file and removes one file for each base, while the request is then resolved
anew by its own extension, and may find another file for one of those bases.

There is no such file when, among the extensions in use, to stand for another one is an equivalence
(`Fallbacks.Coherent`). A derivative is only written where no file is found for its base, so it
never comes to lie beside one that it could be mistaken for (`Solitary`), and whatever a sweep dooms
is all there was for a base. Without such an equivalence two derivatives of one base can be made
side by side, and a sweep of one lets a request start at the other. So the condition is exact
(`sweeps_to_fresh_iff`).
-/

namespace Rendition

open Time

/-! ### Extensions in use -/

/-- Among the extensions in use, to stand for one is an equivalence. -/
structure Fallbacks.Coherent (fallbacks : Fallbacks) (used : String → Prop) : Prop where
  symm : ∀ {x y : String}, used x → used y → y ∈ fallbacks.candidates x →
    x ∈ fallbacks.candidates y
  trans : ∀ {x y z : String}, used x → used y → used z → y ∈ fallbacks.candidates x →
    z ∈ fallbacks.candidates y → z ∈ fallbacks.candidates x

/-- What may stand for an extension is what may stand for one that may stand for it. -/
theorem Fallbacks.Coherent.mem_candidates_iff {fallbacks : Fallbacks} {used : String → Prop}
    (h : fallbacks.Coherent used) {x y z : String} (hx : used x) (hy : used y) (hz : used z)
    (hxy : y ∈ fallbacks.candidates x) :
    z ∈ fallbacks.candidates x ↔ z ∈ fallbacks.candidates y :=
  ⟨h.trans hy hx hz (h.symm hx hy hxy), h.trans hx hy hz hxy⟩

/-- A name that a source can have: an extension in use, if any, and no directive at the end. -/
def IsSource (used : String → Prop) (name : String) : Prop :=
  namesDerivative name = false ∧ ∀ ext, extensionOf name = some ext → used ext

/-- Files with extensions in use. No derivative has a file with the same stem beside it whose
extension may stand for its own. -/
structure Solitary (fallbacks : Fallbacks) (used : String → Prop) (files : Catalog StoredFile) :
    Prop where
  inUse : ∀ name ext, (files.get? name).isSome → extensionOf name = some ext → used ext
  alone : ∀ {dir base c c' : String}, used c → used c' → c' ∈ fallbacks.candidates c →
    (files.get? (pathOf dir base c)).isSome → (files.get? (pathOf dir base c')).isSome →
    namesDerivative (pathOf dir base c) = true → c' = c

namespace Solitary

variable {fallbacks : Fallbacks} {used : String → Prop} {files : Catalog StoredFile}

/-- Sources alone are solitary. -/
theorem of_sources (h : ∀ name, (files.get? name).isSome → IsSource used name) :
    Solitary fallbacks used files where
  inUse name ext hname hext := (h name hname).2 ext hext
  alone {dir base c c'} _ _ _ hfile _ hderivative := by
    rw [(h _ hfile).1] at hderivative
    cases hderivative

theorem without (h : Solitary fallbacks used files) (names : List String) :
    Solitary fallbacks used (files.without names) where
  inUse name ext hname hext := h.inUse name ext (Catalog.mem_of_without hname).2 hext
  alone hc hc' hmem hfile hfile' hderivative :=
    h.alone hc hc' hmem (Catalog.mem_of_without hfile).2 (Catalog.mem_of_without hfile').2
      hderivative

/-- The file found at a level of a path has an extension in use. -/
theorem used_level (h : Solitary fallbacks used files) {path : RequestPath} {stem ext c : String}
    (hsplit : splitExtension path.fileName = some (stem, ext)) {cut : Cut} (hcut : cut ∈ cuts stem)
    (hc : IsExtension c) (hfile : (files.get? (pathOf path.dir cut.base c)).isSome) : used c := by
  obtain ⟨q, htext, -, hsplit'⟩ := exists_level hsplit hcut hc
  refine h.inUse _ c hfile ?_
  rw [← htext, extensionOf, RequestPath.nameOf_text, hsplit']
  rfl

/-- The file that a request starts at has an extension in use. -/
theorem used_start (h : Solitary fallbacks used files) {path onDisk : RequestPath} {r : Resolution}
    {stem ext c : String} {cut : Cut}
    (hstart : Start files.look fallbacks path r onDisk stem ext cut c) :
    used c ∧ (files.get? (pathOf path.dir cut.base c)).isSome := by
  obtain ⟨file, hget, -⟩ := Catalog.fileAt_look.1 hstart.found
  rw [hstart.text_eq] at hget
  have hfile := Option.isSome_of_eq_some hget
  exact ⟨h.used_level hstart.split hstart.mem_cuts hstart.isExtension hfile, hfile⟩

variable (hused : ∀ x, used x → IsExtension x)

include hused

/-- A source may be put anywhere. -/
theorem insert_source (h : Solitary fallbacks used files) {name : String}
    (hname : IsSource used name) (file : StoredFile) :
    Solitary fallbacks used (files.insert name file) where
  inUse other ext hother hext := by
    rw [Catalog.get?_insert] at hother
    split at hother
    · next heq => exact hname.2 ext (heq ▸ hext)
    · exact h.inUse other ext hother hext
  alone {dir base c c'} hc hc' hmem hfile hfile' hderivative := by
    have hne : pathOf dir base c ≠ name := by
      intro heq
      rw [heq, hname.1] at hderivative
      cases hderivative
    have hne' : pathOf dir base c' ≠ name := by
      intro heq
      rw [namesDerivative_congr (hused c hc) (hused c' hc'), heq, hname.1] at hderivative
      cases hderivative
    rw [Catalog.get?_insert, if_neg hne] at hfile
    rw [Catalog.get?_insert, if_neg hne'] at hfile'
    exact h.alone hc hc' hmem hfile hfile' hderivative

/-- A derivative may be put where nothing is found for its base. -/
theorem insert_derived (h : Solitary fallbacks used files) (hcoherent : fallbacks.Coherent used)
    {path : RequestPath} {stem ext : String}
    (hsplit : splitExtension path.fileName = some (stem, ext)) (hext : used ext)
    (hnone : firstAt files.look fallbacks path.dir stem ext = none) (file : StoredFile) :
    Solitary fallbacks used (files.insert path.text file) where
  inUse other ext' hother hext' := by
    rw [Catalog.get?_insert] at hother
    split at hother
    · next heq =>
        rw [heq, extensionOf, RequestPath.nameOf_text, hsplit] at hext'
        obtain rfl := Option.some.inj hext'
        exact hext
    · exact h.inUse other ext' hother hext'
  alone {dir base c c'} hc hc' hmem hfile hfile' hderivative := by
    rw [text_eq_pathOf hsplit] at hfile hfile'
    -- Beside the new file there is none that may stand for it.
    have hbeside : ∀ x, dir ++ base = path.dir ++ stem → x ∈ fallbacks.candidates ext →
        files.get? (pathOf dir base x) = none := by
      intro x hfront hx
      have hpath : pathOf dir base x = pathOf path.dir stem x := by simp only [pathOf, hfront]
      rw [hpath]
      exact Catalog.fileAt_look_eq_none.1 (firstAt_eq_none.1 hnone x hx)
    by_cases heq : c' = c
    · exact heq
    · exfalso
      rw [Catalog.get?_insert] at hfile hfile'
      split at hfile
      · next hnew =>
          obtain ⟨hfront, rfl⟩ := pathOf_inj_of_isExtension (hused c hc) (hused ext hext) hnew
          rw [if_neg fun hnew' => heq (pathOf_inj_of_isExtension (hused c' hc') (hused c hc)
            hnew').2, hbeside c' hfront hmem] at hfile'
          cases hfile'
      · split at hfile'
        · next hnew =>
            obtain ⟨hfront, rfl⟩ := pathOf_inj_of_isExtension (hused c' hc') (hused ext hext) hnew
            rw [hbeside c hfront (hcoherent.symm hc hc' hmem)] at hfile
            cases hfile
        · exact heq (h.alone hc hc' hmem hfile hfile' hderivative)

end Solitary

/-! ### After a sweep -/

section AfterSweep

variable {fallbacks : Fallbacks} {used : String → Prop} {path onDisk : RequestPath}
  {m m' : MemoryFiles}

/-- Whatever lies at a cut between the swept file and the one that was spared is removed, if it has
an extension that may stand for that of the swept file. -/
theorem Start.removed_between {files : Catalog StoredFile} {r : Resolution} {stem ext c : String}
    {cut last between : Cut} {doomed : List String} (hplain : fallbacks.Plain)
    (hcoherent : fallbacks.Coherent used) (hsolitary : Solitary fallbacks used files)
    (h : Start files.look fallbacks path r onDisk stem ext cut c)
    (hstale : stalenessIn files.look fallbacks onDisk = .stale doomed)
    (hlast : last ∈ generatedCuts cut.base)
    (hfound : (firstAt files.look fallbacks path.dir last.base c).isSome)
    (hbetween : between ∈ cuts cut.base) (hlen : between.tokens.length < last.tokens.length)
    {y : String} (hy : used y) (hmem : y ∈ fallbacks.candidates c)
    (hfile : (files.get? (pathOf path.dir between.base y)).isSome) :
    pathOf path.dir between.base y ∈ doomed := by
  obtain ⟨hc, honDisk⟩ := hsolitary.used_start h
  -- The file that the sweep meets at this cut is doomed, and it is the only one there.
  have hmet : ∃ z ∈ fallbacks.candidates c, (files.get? (pathOf path.dir between.base z)).isSome ∧
      pathOf path.dir between.base z ∈ doomed := by
    by_cases hne : between.tokens = []
    · have hwhole : between = ⟨cut.base, []⟩ :=
        cut_eq_of_length_eq hbetween
          (whole_mem_cuts (splitExtension_eq_some.1 h.splitOnDisk).2.1) (by simp [hne])
      subst hwhole
      refine ⟨c, List.mem_cons_self, honDisk, ?_⟩
      rw [← h.text_eq]
      exact (mem_doomed h.splitOnDisk hstale).2 (Or.inl rfl)
    · have hgenerated := generatedCut_of_length_le hbetween hne hlast (Nat.le_of_lt hlen)
      have hsome : (firstAt files.look fallbacks path.dir between.base c).isSome :=
        Catalog.firstAt_isSome.2 ⟨y, hmem, hfile⟩
      obtain ⟨level, hlevel⟩ := Option.isSome_iff_exists.1 hsome
      obtain ⟨z, hz, file, hget, rfl⟩ := Catalog.exists_of_firstAt hlevel
      refine ⟨z, hz, Option.isSome_of_eq_some hget, ?_⟩
      refine (mem_doomed h.splitOnDisk hstale).2 (Or.inr ⟨between, hgenerated,
        ⟨pathOf path.dir between.base z, file.stat⟩, ?_, rfl, last, hlast, hlen, ?_⟩)
      · rw [h.dir]
        exact hlevel
      · rw [h.dir]
        exact hfound
  obtain ⟨z, hz, hfile', hdoomed⟩ := hmet
  have hzUsed : used z := by
    rw [← h.dir] at hfile'
    exact hsolitary.used_level h.splitOnDisk hbetween (hplain.isExtension h.isExtension hz) hfile'
  have hyz : y ∈ fallbacks.candidates z := (hcoherent.mem_candidates_iff hc hzUsed hy hz).1 hmem
  have heq : y = z := hsolitary.alone hzUsed hy hyz hfile' hfile
    (namesDerivative_of_mem_doomed hplain hstale hdoomed)
  exact heq ▸ hdoomed

section Spared

variable {r r' : Resolution} {onDisk' : RequestPath} {stem ext c c' x : String}
  {cut cut' last : Cut} {doomed : List String} (hplain : fallbacks.Plain)
  (hcoherent : fallbacks.Coherent used) (hsolitary : Solitary fallbacks used m.files)
  (hext : used ext) (hstart : Start m.look fallbacks path r onDisk stem ext cut c)
  (hlast : last ∈ generatedCuts cut.base) (hx : x ∈ fallbacks.candidates c)
  (hleft : ((m.files.without doomed).get? (pathOf path.dir last.base x)).isSome)
  (hstart' : Start (m.files.without doomed).look fallbacks path r' onDisk' stem ext cut' c')

include hplain hcoherent hsolitary hext hstart hlast hx hleft

/-- What was spared may stand for the requested extension. -/
theorem Start.firstAt_spared :
    (firstAt (m.files.without doomed).look fallbacks path.dir last.base ext).isSome := by
  have hc := (hsolitary.used_start hstart).1
  have hcut := cut_trans hstart.mem_cuts (mem_generatedCuts.1 hlast).1
  have hxUsed : used x :=
    hsolitary.used_level hstart.split hcut (hplain.isExtension hstart.isExtension hx)
      (Catalog.mem_of_without hleft).2
  exact Catalog.firstAt_isSome.2
    ⟨x, (hcoherent.mem_candidates_iff hext hc hxUsed hstart.candidate).2 hx, hleft⟩

include hstart'

/-- The request starts at the base of the file that was spared. -/
theorem Start.eq_spared
    (hstale : stalenessIn m.look fallbacks onDisk = .stale doomed) :
    cut' = ⟨last.base, last.tokens ++ cut.tokens⟩ := by
  have hcut := cut_trans hstart.mem_cuts (mem_generatedCuts.1 hlast).1
  obtain ⟨hc', hfile'⟩ := (hsolitary.without doomed).used_start hstart'
  obtain ⟨hnotDoomed, hfile⟩ := Catalog.mem_of_without hfile'
  have hc := (hsolitary.used_start hstart).1
  have hcc' : c' ∈ fallbacks.candidates c :=
    (hcoherent.mem_candidates_iff hext hc hc' hstart.candidate).1 hstart'.candidate
  -- No file is nearer than the one that was swept, and those in between are gone.
  have hnear : cut.tokens.length ≤ cut'.tokens.length := by
    refine Nat.le_of_not_lt fun hlt => ?_
    have hsome := Catalog.firstAt_isSome.2 ⟨c', hstart'.candidate, hfile⟩
    rw [hstart.nearest cut' hstart'.mem_cuts hlt] at hsome
    cases hsome
  obtain ⟨between, htokens, hbetween⟩ := cut_of_length_le hstart.mem_cuts hstart'.mem_cuts hnear
  have hfar : last.tokens.length ≤ between.length := by
    refine Nat.le_of_not_lt fun hlt => hnotDoomed ?_
    exact hstart.removed_between hplain hcoherent hsolitary hstale hlast
      (Catalog.firstAt_isSome.2 ⟨x, hx, (Catalog.mem_of_without hleft).2⟩) hbetween hlt hc' hcc'
      hfile
  have hnotFarther : ¬ (last.tokens ++ cut.tokens).length < cut'.tokens.length := by
    intro hlt
    have hspared := hstart.firstAt_spared hplain hcoherent hsolitary hext hlast hx hleft
    rw [hstart'.nearest _ hcut hlt] at hspared
    cases hspared
  refine cut_eq_of_length_eq hstart'.mem_cuts hcut ?_
  rw [htokens] at hnotFarther ⊢
  simp only [List.length_append] at hnotFarther ⊢
  omega

/-- Nothing was found behind that one, so nothing is found behind it now. -/
theorem Start.fresh_of_spared
    (hstale : stalenessIn m.look fallbacks onDisk = .stale doomed)
    (hmost : ∀ other ∈ generatedCuts cut.base,
      (firstAt m.look fallbacks path.dir other.base c).isSome →
      other.tokens.length ≤ last.tokens.length) :
    stalenessIn (m.files.without doomed).look fallbacks onDisk' = .fresh := by
  have hatLast := hstart.eq_spared hplain hcoherent hsolitary hext hlast hx hleft hstart' hstale
  have hcut := cut_trans hstart.mem_cuts (mem_generatedCuts.1 hlast).1
  have hc := (hsolitary.used_start hstart).1
  have hc' := ((hsolitary.without doomed).used_start hstart').1
  have hcc' : c' ∈ fallbacks.candidates c :=
    (hcoherent.mem_candidates_iff hext hc hc' hstart.candidate).1 hstart'.candidate
  refine stalenessIn_eq_fresh.2 fun file _ level hlevel => ?_
  obtain ⟨further, hfurther, hfound⟩ := (mem_ancestorsIn hstart'.splitOnDisk).1 hlevel
  rw [hatLast] at hfurther
  obtain ⟨hfurtherMem, hne, -⟩ := mem_generatedCuts.1 hfurther
  obtain ⟨w, hw, _, hget, -⟩ := Catalog.exists_of_firstAt hfound
  have hthere : (m.files.get? (pathOf path.dir further.base w)).isSome := by
    rw [hstart'.dir] at hget
    exact (Catalog.mem_of_without (Option.isSome_of_eq_some hget)).2
  have hwUsed : used w :=
    hsolitary.used_level hstart.split (cut_trans hcut hfurtherMem)
      (hplain.isExtension hstart'.isExtension hw) hthere
  have hwc : w ∈ fallbacks.candidates c := (hcoherent.mem_candidates_iff hc hc' hwUsed hcc').2 hw
  have hlen := hmost _ (generatedCut_trans hlast hfurther)
    (Catalog.firstAt_isSome.2 ⟨w, hwc, hthere⟩)
  have hpos := List.length_pos_iff.2 hne
  simp only [List.length_append] at hlen
  omega

end Spared

/-- After a sweep of solitary files a request is resolved, and starts at a fresh file. -/
theorem Solitary.fresh_after_sweep (hplain : fallbacks.Plain)
    (hcoherent : fallbacks.Coherent used) (hsolitary : Solitary fallbacks used m.files)
    (hpath : ∀ ext, path.extension = some ext → used ext)
    (h : Swept fallbacks path m m' onDisk) :
    ∃ r onDisk', resolveIn m'.look fallbacks path = .ok r ∧
      RequestPath.ofRequest r.file.path = .ok onDisk' ∧
      stalenessIn m'.look fallbacks onDisk' = .fresh := by
  obtain ⟨doomed, hstale, rfl⟩ := h.exists_doomed
  obtain ⟨r, stem, ext, cut, c, hstart⟩ := h.exists_start hplain
  have hext : used ext := hpath ext (RequestPath.extension_eq hstart.split)
  obtain ⟨last, hlast, x, hx, hcut, hleft, hmost⟩ := hstart.exists_spared hstale
  have hspared := hstart.firstAt_spared hplain hcoherent hsolitary hext hlast hx hleft
  obtain ⟨r', hresolve⟩ := resolveIn_ok_of_cut hstart.split hcut hspared
  obtain ⟨onDisk', cut', c', hstart'⟩ := exists_start hplain hstart.split hresolve
  exact ⟨r', onDisk', hresolve, hstart'.ofRequest, hstart.fresh_of_spared hplain hcoherent
    hsolitary hext hlast hx hleft hstart' hstale hmost⟩

end AfterSweep

/-! ### One request -/

section Request

variable {γ κ η : Type} {engine : Engine MemoryFiles γ κ η} {used : String → Prop}
  {path : RequestPath} {m t u : MemoryFiles} {k l : κ} {picked : Bool} {r : Resolution}

theorem Settles.solitary {files : FileSystem MemoryFiles} {fallbacks : Fallbacks}
    {outcome : Except Error Resolution} (hfiles : files = MemoryFiles.fileSystem)
    (hsettle : Settles files MemoryFiles.look fallbacks path picked m outcome t)
    (h : Solitary fallbacks used m.files) : Solitary fallbacks used t.files := by
  cases hsettle with
  | unresolved | unpicked | misnamed | fresh => exact h
  | swept _ _ _ hremove | interrupted _ _ _ hremove =>
      obtain ⟨-, rfl⟩ := MemoryFiles.removeAll_eq hfiles hremove
      exact h.without _

/-- A derivative is only kept where nothing is found for its whole stem. -/
theorem firstAt_whole_eq_none {look : String → Option FileStat} {fallbacks : Fallbacks}
    {source : FoundFile} {chain : Chain} {ext : String}
    (hresolve : resolveIn look fallbacks path = .ok (.derived source chain ext))
    (hchain : chain.isEmpty = false) :
    ∃ stem, splitExtension path.fileName = some (stem, ext) ∧
      firstAt look fallbacks path.dir stem ext = none := by
  obtain ⟨-, stem, hsplit, cut, hcut, rfl, -, hnearest⟩ := resolveIn_eq_derived.1 hresolve
  have hpos : 0 < cut.tokens.length := by
    refine List.length_pos_iff.2 fun hnil => ?_
    simp [hnil] at hchain
  have hwhole := whole_mem_cuts (splitExtension_eq_some.1 hsplit).2.1
  exact ⟨stem, hsplit, hnearest ⟨stem, []⟩ hwhole hpos⟩

/-- Serving a path with an extension in use keeps the files solitary. -/
theorem Serves.solitary {outcome : Except Error Served}
    (hfiles : engine.files = MemoryFiles.fileSystem) (hused : ∀ x, used x → IsExtension x)
    (hcoherent : engine.fallbacks.Coherent used)
    (hpath : ∀ ext, path.extension = some ext → used ext)
    (hserve : Serves engine MemoryFiles.look path picked m k outcome u l)
    (h : Solitary engine.fallbacks used m.files) : Solitary engine.fallbacks used u.files := by
  cases hserve with
  | unsettled hsettle => exact hsettle.solitary hfiles h
  | answered hsettle hanswer =>
      have ht := hsettle.solitary hfiles h
      cases hanswer with
      | unread hread => exact (MemoryFiles.read_eq_error hfiles hread).1 ▸ ht
      | file hread => exact (MemoryFiles.read_eq_ok hfiles hread).1 ▸ ht
      | undone hread => exact (MemoryFiles.read_eq_ok hfiles hread).1 ▸ ht
      | made hread hexecute hkeep =>
          obtain ⟨rfl, -⟩ := MemoryFiles.read_eq_ok hfiles hread
          cases hkeep with
          | bare => exact ht
          | written hchain hwrite =>
              obtain rfl := MemoryFiles.write_eq hfiles hwrite
              have hresolve := (hsettle.ok_inv_memory hfiles).1
              obtain ⟨stem, hsplit, hnone⟩ := firstAt_whole_eq_none hresolve hchain
              exact ht.insert_derived hused hcoherent hsplit
                (hpath _ (RequestPath.extension_eq hsplit)) hnone _

end Request

/-! ### Histories -/

/-- One thing that happens: a request for a path with an extension in use, or a content for a
source, new or not. What it stamps, it stamps later than everything before. -/
inductive Engine.Event {γ κ η : Type} (engine : Engine MemoryFiles γ κ η) (used : String → Prop) :
    World MemoryFiles γ κ → World MemoryFiles γ κ → Prop
  | request {w : World MemoryFiles γ κ} {raw : String} {now : Timestamp}
      (hpath : ∀ path ext, RequestPath.ofRequest raw = .ok path → path.extension = some ext →
        used ext)
      (hclock : w.files.StampedBefore now) : Event engine used w (engine.after raw now w)
  | source {w : World MemoryFiles γ κ} {name : String} {content : Content} {now : Timestamp}
      (hname : IsSource used name) (hclock : w.files.StampedBefore now) :
      Event engine used w { w with files := w.files.insert name ⟨content, now, now⟩ }

/-- The worlds that events lead to from a first one. -/
inductive Engine.History {γ κ η : Type} (engine : Engine MemoryFiles γ κ η)
    (used : String → Prop) (w₀ : World MemoryFiles γ κ) : World MemoryFiles γ κ → Prop
  | start : History engine used w₀ w₀
  | event {w w' : World MemoryFiles γ κ} (h : History engine used w₀ w)
      (hevent : engine.Event used w w') : History engine used w₀ w'

section History

variable {γ κ η : Type} {engine : Engine MemoryFiles γ κ η} {used : String → Prop}
  {w₀ w w' : World MemoryFiles γ κ}

theorem Engine.Event.solitary (hfiles : engine.files = MemoryFiles.fileSystem)
    (hdisk : engine.backend = .disk) (hused : ∀ x, used x → IsExtension x)
    (hcoherent : engine.fallbacks.Coherent used) (hevent : engine.Event used w w')
    (h : Solitary engine.fallbacks used w.files.files) :
    Solitary engine.fallbacks used w'.files.files := by
  cases hevent with
  | source hname => exact h.insert_source hused hname _
  | @request raw now hpath =>
      cases hraw : RequestPath.ofRequest raw with
      | error e =>
          rw [Engine.after, Engine.run_serve_unnamed hraw]
          exact h
      | ok path =>
          obtain ⟨outcome, files, codec, sampler, hserve, -, hrun⟩ :=
            Engine.serves hdisk (MemoryFiles.looks_stat hfiles) hraw
              { w with files := w.files.atTime now }
          rw [Engine.after, hrun]
          exact hserve.solitary hfiles hused hcoherent (fun ext => hpath path ext hraw) h

theorem Engine.History.solitary (hfiles : engine.files = MemoryFiles.fileSystem)
    (hdisk : engine.backend = .disk) (hused : ∀ x, used x → IsExtension x)
    (hcoherent : engine.fallbacks.Coherent used)
    (hsources : ∀ name, (w₀.files.files.get? name).isSome → IsSource used name)
    (hhistory : engine.History used w₀ w) : Solitary engine.fallbacks used w.files.files := by
  induction hhistory with
  | start => exact .of_sources hsources
  | event _ hevent ih => exact hevent.solitary hfiles hdisk hused hcoherent ih

end History

/-- Whatever happened before, with extensions in use only and sources on disk at first: a request
that is picked for a check, and whose file is swept, is then resolved and starts at a fresh file. -/
def SweepsToFresh (fallbacks : Fallbacks) (used : String → Prop) : Prop :=
  ∀ (γ κ η : Type) (engine : Engine MemoryFiles γ κ η) (w₀ w : World MemoryFiles γ κ)
    (path onDisk : RequestPath) (m' : MemoryFiles),
    engine.files = MemoryFiles.fileSystem → engine.backend = .disk →
    engine.fallbacks = fallbacks →
    (∀ name, (w₀.files.files.get? name).isSome → IsSource used name) →
    engine.History used w₀ w → (∀ ext, path.extension = some ext → used ext) →
    w.sampler.next.1 = true → Swept fallbacks path w.files m' onDisk →
    ∃ r onDisk', resolveIn m'.look fallbacks path = .ok r ∧
      RequestPath.ofRequest r.file.path = .ok onDisk' ∧
      stalenessIn m'.look fallbacks onDisk' = .fresh

/-! ### Two derivatives side by side -/

namespace Sketching

variable {fallbacks : Fallbacks} {files : Catalog StoredFile} {y : String} {photo : StoredFile}
  {path : RequestPath} {ext : String}

theorem Newer.without (h : Newer fallbacks files y photo) (c : String) :
    Newer fallbacks (files.without [pathOf "" "a_q1" c]) y photo where
  there := by
    rw [Catalog.get?_without, if_neg (by simpa using pathOf_photo_ne)]
    exact h.there
  only x hx := h.only x (Catalog.mem_of_without hx).2
  older c' file hget := h.older c' file (Catalog.get?_of_without hget)

/-- A codec that leaves contents as they are. -/
def copying : Codec Unit Content where
  decode content := pure content
  resize _ _ content := pure content
  crop _ _ _ _ content := pure content
  setQuality _ content := pure content
  encode _ content := pure content

theorem run_apply_copying (directive : Directive) (content : Content) :
    (copying.apply directive content).run.run () = (.ok content, ()) := by
  cases directive <;> rfl

theorem run_applyTokens_copying (tokens : List Token) (applied skipped : Nat) (content : Content) :
    ∃ result, (copying.applyTokens tokens applied skipped content).run.run ()
      = (.ok result, ()) := by
  induction tokens generalizing applied skipped with
  | nil => exact ⟨_, rfl⟩
  | cons token rest ih =>
      unfold Codec.applyTokens
      cases token.parse.directive? with
      | none => exact ih applied (skipped + 1)
      | some directive =>
          simp only
          rw [run_bind_of_ok (run_apply_copying directive content)]
          exact ih (applied + 1) skipped

theorem run_execute_copying (content : Content) (chain : Chain) (extension : String) :
    ∃ execution, (copying.execute content chain extension).run.run () = (.ok execution, ()) := by
  obtain ⟨⟨picture, applied, skipped⟩, htokens⟩ := run_applyTokens_copying chain.tokens 0 0 content
  have hdecode : (copying.decode content).run.run () = (.ok content, ()) := rfl
  rw [Codec.execute, run_bind_of_ok hdecode, run_bind_of_ok htokens]
  exact ⟨_, rfl⟩

/-- Copies on files in memory. -/
def copier (fallbacks : Fallbacks) : Engine MemoryFiles Unit Unit Content where
  files := MemoryFiles.fileSystem
  codec := copying
  fallbacks := fallbacks
  backend := .disk

/-- A request that starts at a fresh file makes a copy of that. -/
theorem exists_makes_copier {path onDisk : RequestPath} {w : World MemoryFiles Unit Unit}
    {source : FoundFile} {chain : Chain} {ext : String} (now : Timestamp)
    (hresolve : resolveIn w.files.look fallbacks path = .ok (.derived source chain ext))
    (hpath : RequestPath.ofRequest source.path = .ok onDisk)
    (hfresh : stalenessIn w.files.look fallbacks onDisk = .fresh) :
    (copier fallbacks).settledAt path now w = .ok (.derived source chain ext) ∧
      ∃ file execution, (copier fallbacks).Makes path.text path now w source chain ext
        w.files.files file execution := by
  have hexecute : ∀ content, ∃ execution,
      (((copier fallbacks).codec.execute content chain ext).run.run w.codec).1
        = .ok execution := by
    intro content
    obtain ⟨execution, hexecution⟩ := run_execute_copying content chain ext
    exact ⟨execution, congrArg Prod.fst hexecution⟩
  have hfiles : (copier fallbacks).files = MemoryFiles.fileSystem := rfl
  have hdisk : (copier fallbacks).backend = .disk := rfl
  exact Engine.exists_makes_of_fresh hfiles hdisk path.ofRequest_text hresolve hpath hfresh
    hexecute now

/-- The copy is kept. -/
theorem after_copier {w : World MemoryFiles Unit Unit} {source : FoundFile} {chain : Chain}
    {onDisk : RequestPath} (now : Timestamp)
    (hresolve : resolveIn w.files.look fallbacks path = .ok (.derived source chain ext))
    (hchain : chain.isEmpty = false) (hpath : RequestPath.ofRequest source.path = .ok onDisk)
    (hfresh : stalenessIn w.files.look fallbacks onDisk = .fresh) :
    ((copier fallbacks).after path.text now w).sampler.mask = w.sampler.mask ∧
    ∃ content, ((copier fallbacks).after path.text now w).files.files
      = w.files.files.insert path.text ⟨content, now, now⟩ := by
  obtain ⟨-, file, execution, hmakes⟩ := exists_makes_copier now hresolve hpath hfresh
  refine ⟨Engine.mask_after rfl rfl path.ofRequest_text now, execution.result, ?_⟩
  rw [hmakes.kept, if_neg (by simp [hchain])]

theorem isSource_photo {used : String → Prop} (hused : ∀ x, used x → IsExtension x) (hy : used y) :
    IsSource used (pathOf "" "a" y) := by
  obtain ⟨q, htext, -, hsplit⟩ := exists_path "a" (by decide) (hused y hy)
  have hcut : Text.cutLast '_' "a" = none := by decide
  rw [← htext]
  refine ⟨by simp [namesDerivative, hsplit, hcut], fun ext hext => ?_⟩
  rw [extensionOf, RequestPath.nameOf_text, hsplit] at hext
  exact Option.some.inj hext ▸ hy

theorem stalenessIn_photo {q : RequestPath} (hsplit : splitExtension q.fileName = some ("a", y))
    (look : String → Option FileStat) : stalenessIn look fallbacks q = .fresh := by
  have hgenerated : generatedCuts "a" = [] := by decide
  refine stalenessIn_eq_fresh.2 fun file _ level hlevel => ?_
  rw [ancestorsIn_eq hsplit, hgenerated] at hlevel
  cases hlevel

/-- A photo that is the only file with its stem, and may stand for each derivative there is. -/
structure Lone (fallbacks : Fallbacks) (files : Catalog StoredFile) (y : String) : Prop where
  there : (files.get? (pathOf "" "a" y)).isSome
  only : ∀ x, (files.get? (pathOf "" "a" x)).isSome → x = y
  stands : ∀ c, (files.get? (pathOf "" "a_q1" c)).isSome → y ∈ fallbacks.candidates c

namespace Lone

theorem insert_derivative (h : Lone fallbacks files y) {c : String}
    (hyc : y ∈ fallbacks.candidates c) (file : StoredFile) :
    Lone fallbacks (files.insert (pathOf "" "a_q1" c) file) y where
  there := by
    rw [Catalog.get?_insert, if_neg pathOf_photo_ne]
    exact h.there
  only x hx := by
    rw [Catalog.get?_insert, if_neg pathOf_photo_ne] at hx
    exact h.only x hx
  stands c' hc' := by
    rw [Catalog.get?_insert] at hc'
    split at hc'
    · next heq => exact pathOf_inj heq ▸ hyc
    · exact h.stands c' hc'

/-- The photo is replaced, later than all there is. -/
theorem newer {m : MemoryFiles} {now : Timestamp} (h : Lone fallbacks m.files y)
    (hclock : m.StampedBefore now) (content : Content) :
    Newer fallbacks (m.insert (pathOf "" "a" y) ⟨content, now, now⟩).files y
      ⟨content, now, now⟩ where
  there := by
    rw [MemoryFiles.insert, Catalog.get?_insert, if_pos rfl]
  only x hx := by
    rw [MemoryFiles.insert, Catalog.get?_insert] at hx
    split at hx
    · next heq => exact pathOf_inj heq
    · exact h.only x hx
  older c file hget := by
    rw [MemoryFiles.insert, Catalog.get?_insert, if_neg pathOf_photo_ne.symm] at hget
    rw [StoredFile.newest_stat]
    exact ⟨h.stands c (Option.isSome_of_eq_some hget), hclock.modified_lt hget⟩

/-- A request that no derivative may stand for is answered from the photo. -/
theorem resolveIn_eq (h : Lone fallbacks files y)
    (hsplit : splitExtension path.fileName = some ("a_q1", ext)) (hdir : path.dir = "")
    (hy : y ∈ fallbacks.candidates ext)
    (hnone : ∀ c ∈ fallbacks.candidates ext, files.get? (pathOf "" "a_q1" c) = none) :
    ∃ source, source.path = pathOf "" "a" y ∧
      resolveIn files.look fallbacks path
        = .ok (.derived source (Chain.ofTexts ["q1"]) ext) := by
  have hpath : files.get? path.text = none := by
    rw [text_eq_pathOf hsplit, hdir]
    exact hnone ext List.mem_cons_self
  have hnear : firstAt files.look fallbacks "" "a_q1" ext = none :=
    firstAt_eq_none.2 fun c hc => Catalog.fileAt_look_eq_none.2 (hnone c hc)
  obtain ⟨source, hsource⟩ :=
    Option.isSome_iff_exists.1 (Catalog.firstAt_isSome.2 ⟨y, hy, h.there⟩)
  obtain ⟨x, -, file, hget, rfl⟩ := Catalog.exists_of_firstAt hsource
  obtain rfl := h.only x (Option.isSome_of_eq_some hget)
  exact ⟨_, rfl, by rw [resolveIn_derivative hsplit hdir hpath, hnear, hsource]⟩

end Lone

/-- A photo with an extension, and a check at every request. -/
def photoAs (y : String) : World MemoryFiles Unit Unit where
  files := ⟨Catalog.empty.insert (pathOf "" "a" y) ⟨.text "A", instant 1, instant 1⟩, instant 1⟩
  cache := ()
  codec := ()
  sampler := ⟨0, 0⟩

theorem eq_of_photoAs {name : String} (h : ((photoAs y).files.files.get? name).isSome) :
    name = pathOf "" "a" y := by
  by_cases heq : name = pathOf "" "a" y
  · exact heq
  · simp [photoAs, heq] at h

theorem lone_photoAs : Lone fallbacks (photoAs y).files.files y where
  there := by simp [photoAs]
  only _ hx := pathOf_inj (eq_of_photoAs hx)
  stands _ hc := absurd (eq_of_photoAs hc) pathOf_photo_ne.symm

/-- A request for a derivative of the photo that no other derivative may stand for keeps a copy of
the photo. -/
theorem exists_copied {used : String → Prop} (hused : ∀ x, used x → IsExtension x) {c : String}
    (hc : used c) (hy : used y) (hyc : y ∈ fallbacks.candidates c) {w : World MemoryFiles Unit Unit}
    {now : Timestamp} (hlone : Lone fallbacks w.files.files y)
    (hnone : ∀ c' ∈ fallbacks.candidates c, w.files.files.get? (pathOf "" "a_q1" c') = none)
    (hclock : w.files.StampedBefore now) :
    ∃ w' content, (copier fallbacks).Event used w w' ∧ w'.sampler.mask = w.sampler.mask ∧
      w'.files.files = w.files.files.insert (pathOf "" "a_q1" c) ⟨content, now, now⟩ ∧
      Lone fallbacks w'.files.files y ∧ ∀ later, now < later → w'.files.StampedBefore later := by
  obtain ⟨path, htext, hdir, hsplit⟩ := exists_path "a_q1" (by decide) (hused c hc)
  obtain ⟨onDisk, htextOnDisk, -, hsplitOnDisk⟩ :=
    exists_path "a" (by decide) (hused y hy)
  obtain ⟨source, hsource, hresolve⟩ := hlone.resolveIn_eq hsplit hdir hyc hnone
  have hpath : RequestPath.ofRequest source.path = .ok onDisk := by
    rw [hsource, ← htextOnDisk]
    exact onDisk.ofRequest_text
  obtain ⟨hmask, content, hfiles⟩ :=
    after_copier now hresolve rfl hpath (stalenessIn_photo hsplitOnDisk _)
  rw [htext] at hfiles hmask
  refine ⟨_, content, .request (fun path' ext hraw hext => ?_) hclock, hmask, hfiles,
    hfiles ▸ hlone.insert_derivative hyc _, fun later hlater => ?_⟩
  · rw [← htext, path.ofRequest_text] at hraw
    obtain rfl := Except.ok.inj hraw
    exact Option.some.inj ((RequestPath.extension_eq hsplit).symm.trans hext) ▸ hc
  · have hbefore : w.files.StampedBefore later := hclock.mono (Int.le_of_lt hlater)
    exact hbefore.of_insert hfiles hlater hlater

/-- Two derivatives of the photo are requested, the second one with an extension that the first one
may not stand for, and then the photo is replaced. -/
theorem exists_side_by_side {used : String → Prop} (hused : ∀ x, used x → IsExtension x)
    {u v : String} (hu : used u) (hv : used v) (hy : used y) (hyu : y ∈ fallbacks.candidates u)
    (hyv : y ∈ fallbacks.candidates v) (huv : u ∉ fallbacks.candidates v) :
    ∃ w photo, (copier fallbacks).History used (photoAs y) w ∧ w.sampler.mask = 0 ∧
      Newer fallbacks w.files.files y photo ∧
      (w.files.files.get? (pathOf "" "a_q1" u)).isSome ∧
      (w.files.files.get? (pathOf "" "a_q1" v)).isSome := by
  have hnone : ∀ c, (photoAs y).files.files.get? (pathOf "" "a_q1" c) = none := by
    intro c
    simp [photoAs, pathOf_photo_ne.symm]
  have hclock : (photoAs y).files.StampedBefore (instant 2) := by
    intro entry hentry
    obtain rfl := List.mem_singleton.1 hentry
    have hlt : instant 1 < instant 2 := by decide
    exact ⟨hlt, hlt⟩
  obtain ⟨w₁, content₁, hevent₁, hmask₁, hfiles₁, hlone₁, hclock₁⟩ :=
    exists_copied hused hu hy hyu lone_photoAs (fun c _ => hnone c) hclock
  -- The first derivative is there now, and may not stand for the second one.
  have hnone₁ : ∀ c ∈ fallbacks.candidates v, w₁.files.files.get? (pathOf "" "a_q1" c) = none := by
    intro c hc
    have hne : pathOf "" "a_q1" c ≠ pathOf "" "a_q1" u := fun heq => huv (pathOf_inj heq ▸ hc)
    rw [hfiles₁, Catalog.get?_insert, if_neg hne, hnone]
  obtain ⟨w₂, content₂, hevent₂, hmask₂, hfiles₂, hlone₂, hclock₂⟩ :=
    exists_copied hused hv hy hyv hlone₁ hnone₁ (hclock₁ (instant 3) (by decide))
  have hreplaced := hclock₂ (instant 4) (by decide)
  have hevent₃ : (copier fallbacks).Event used w₂ { w₂ with
      files := w₂.files.insert (pathOf "" "a" y) ⟨.text "B", instant 4, instant 4⟩ } :=
    .source (isSource_photo hused hy) hreplaced
  have hhistory := ((Engine.History.start.event hevent₁).event hevent₂).event hevent₃
  have hderivative : ∀ c, (w₂.files.files.get? (pathOf "" "a_q1" c)).isSome →
      ((w₂.files.insert (pathOf "" "a" y) ⟨.text "B", instant 4, instant 4⟩).files.get?
        (pathOf "" "a_q1" c)).isSome := by
    intro c hc
    rw [MemoryFiles.insert, Catalog.get?_insert, if_neg pathOf_photo_ne.symm]
    exact hc
  refine ⟨_, _, hhistory, hmask₂.trans hmask₁, hlone₂.newer hreplaced _, hderivative u ?_,
    hderivative v ?_⟩
  · have hne : pathOf "" "a_q1" u ≠ pathOf "" "a_q1" v :=
      fun heq => huv (pathOf_inj heq ▸ List.mem_cons_self)
    rw [hfiles₂, Catalog.get?_insert, if_neg hne, hfiles₁, Catalog.get?_insert, if_pos rfl]
    rfl
  · rw [hfiles₂, Catalog.get?_insert, if_pos rfl]
    rfl

end Sketching

/-! ### Which extensions can be mixed -/

/-- Two derivatives that stand for one requested extension, of which one may not stand for the
other, can be stale side by side. -/
theorem not_sweepsToFresh {fallbacks : Fallbacks} {used : String → Prop} (hplain : fallbacks.Plain)
    (hused : ∀ x, used x → IsExtension x) {e u v y : String} (he : used e) (hu : used u)
    (hv : used v) (hy : used y) (heu : u ∈ fallbacks.candidates e)
    (hev : v ∈ fallbacks.candidates e) (hyu : y ∈ fallbacks.candidates u)
    (hyv : y ∈ fallbacks.candidates v) (huv : u ∉ fallbacks.candidates v) :
    ¬ SweepsToFresh fallbacks used := by
  intro hsweeps
  obtain ⟨w, photo, hhistory, hmask, hnewer, hthereU, hthereV⟩ :=
    Sketching.exists_side_by_side hused hu hv hy hyu hyv huv
  obtain ⟨path, -, hdir, hsplit⟩ := Sketching.exists_path "a_q1" (by decide) (hused e he)
  obtain ⟨⟨r, hresolve⟩, hstart⟩ := hnewer.stale hplain hsplit hdir heu hthereU
  obtain ⟨onDisk, c, hpath, htext, -, -, hstale⟩ := hstart r hresolve
  let m' : MemoryFiles := { w.files with files := w.files.files.without [onDisk.text] }
  have hswept : Swept fallbacks path w.files m' onDisk := .of_stale hresolve hpath hstale
  have hsources : ∀ name, ((Sketching.photoAs y).files.files.get? name).isSome →
      IsSource used name := by
    intro name hname
    exact Sketching.eq_of_photoAs hname ▸ Sketching.isSource_photo hused hy
  have hinUse : ∀ ext, path.extension = some ext → used ext := by
    intro ext hext
    exact Option.some.inj ((RequestPath.extension_eq hsplit).symm.trans hext) ▸ he
  obtain ⟨r', onDisk', hresolve', hpath', hfresh⟩ := hsweeps Unit Unit Content
    (Sketching.copier fallbacks) (Sketching.photoAs y) w path onDisk m' rfl rfl rfl hsources
    hhistory hinUse (Sampler.next_of_mask_eq_zero hmask) hswept
  -- One of the two derivatives is left, and it is as stale.
  have hnewer' : Sketching.Newer fallbacks m'.files y photo := by
    have h := hnewer.without c
    rwa [← htext] at h
  have hleft : ∃ d ∈ fallbacks.candidates e, (m'.files.get? (pathOf "" "a_q1" d)).isSome := by
    by_cases hcu : c = u
    · refine ⟨v, hev, ?_⟩
      have hne : pathOf "" "a_q1" v ≠ onDisk.text := by
        rw [htext, hcu]
        exact fun heq => huv (pathOf_inj heq ▸ List.mem_cons_self)
      rw [Catalog.get?_without, if_neg (by simpa using hne)]
      exact hthereV
    · refine ⟨u, heu, ?_⟩
      have hne : pathOf "" "a_q1" u ≠ onDisk.text := by
        rw [htext]
        exact fun heq => hcu (pathOf_inj heq).symm
      rw [Catalog.get?_without, if_neg (by simpa using hne)]
      exact hthereU
  obtain ⟨d, hd, hthere⟩ := hleft
  obtain ⟨-, hstart'⟩ := hnewer'.stale hplain hsplit hdir hd hthere
  obtain ⟨start, -, hstartPath, -, -, -, hstartStale⟩ := hstart' r' hresolve'
  obtain rfl := Except.ok.inj (hpath'.symm.trans hstartPath)
  cases hfresh.symm.trans hstartStale

/-- After a sweep every request starts at a fresh file, whatever happened before with some
extensions in use, if and only if to stand for one is an equivalence among these. -/
theorem sweeps_to_fresh_iff {fallbacks : Fallbacks} (hplain : fallbacks.Plain)
    {used : String → Prop} (hused : ∀ x, used x → IsExtension x) :
    SweepsToFresh fallbacks used ↔ fallbacks.Coherent used := by
  constructor
  · intro hsweeps
    have hsymm : ∀ {x y : String}, used x → used y → y ∈ fallbacks.candidates x →
        x ∈ fallbacks.candidates y := by
      intro x y hx hy hxy
      by_cases hyx : x ∈ fallbacks.candidates y
      · exact hyx
      · exact absurd hsweeps (not_sweepsToFresh hplain hused hx hx hy hy List.mem_cons_self hxy
          hxy List.mem_cons_self hyx)
    refine ⟨hsymm, fun {x y z} hx hy hz hxy hyz => ?_⟩
    by_cases hxz : z ∈ fallbacks.candidates x
    · exact hxz
    · exact absurd hsweeps (not_sweepsToFresh hplain hused hy hz hx hy hyz (hsymm hx hy hxy)
        (hsymm hy hz hyz) hxy hxz)
  · rintro hcoherent γ κ η engine w₀ w path onDisk m' hfiles hdisk rfl hsources hhistory hpath -
      hswept
    have hsolitary := hhistory.solitary hfiles hdisk hused hcoherent hsources
    exact hsolitary.fresh_after_sweep hplain hcoherent hpath hswept

/-- With the built-in table five of the extensions can be mixed, and a webp and a png cannot. -/
theorem sweeps_to_fresh_builtIn :
    SweepsToFresh .builtIn (· ∈ ["jpg", "jpeg", "png", "gif", "bmp"]) ∧
      ¬ SweepsToFresh .builtIn (· ∈ ["webp", "png"]) := by
  constructor
  · have hsymm : ∀ x ∈ ["jpg", "jpeg", "png", "gif", "bmp"], ∀ y ∈ ["jpg", "jpeg", "png", "gif",
        "bmp"], x ∈ Fallbacks.builtIn.candidates y := by decide
    refine (sweeps_to_fresh_iff Fallbacks.plain_builtIn (by decide)).2 ⟨?_, ?_⟩
    · exact fun {x y} hx hy _ => hsymm x hx y hy
    · exact fun {x y z} hx _ hz _ _ => hsymm z hz x hx
  · intro hsweeps
    have hcoherent := (sweeps_to_fresh_iff Fallbacks.plain_builtIn (by decide)).1 hsweeps
    have hpng := hcoherent.symm (x := "webp") (y := "png") (by decide) (by decide) (by decide)
    exact absurd hpng (by decide)

namespace SideBySide

open Sketching

/-- A png, and a check at every request. -/
def photo : World MemoryFiles Unit Codec.Sketch.Record where
  files := ⟨Catalog.empty.insert "a.png" ⟨.text "A", instant 1, instant 1⟩, instant 1⟩
  cache := ()
  codec := #[]
  sampler := ⟨0, 0⟩

/-- A derivative is requested as a webp and then as a png. -/
def requested : World MemoryFiles Unit Codec.Sketch.Record :=
  engine.after "a_q1.png" (instant 3) (engine.after "a_q1.webp" (instant 2) photo)

/-- The photo is replaced. -/
def edited : World MemoryFiles Unit Codec.Sketch.Record :=
  { requested with files := requested.files.insert "a.png" ⟨.text "B", instant 4, instant 4⟩ }

theorem history : engine.History (· ∈ ["webp", "png"]) photo edited := by
  have hpath : ∀ (name ext : String) (h : IsSegment name),
      (RequestPath.single name h).extension = some ext → ext ∈ ["webp", "png"] →
      ∀ path ext', RequestPath.ofRequest name = .ok path → path.extension = some ext' →
        ext' ∈ ["webp", "png"] := by
    intro name ext h hext hmem path ext' hraw hext'
    obtain rfl := Except.ok.inj ((RequestPath.ofRequest_single name h).symm.trans hraw)
    exact Option.some.inj (hext.symm.trans hext') ▸ hmem
  have hsource : IsSource (· ∈ ["webp", "png"]) "a.png" := by
    have hext : extensionOf "a.png" = some "png" := by decide
    exact ⟨by decide, fun ext hext' => Option.some.inj (hext.symm.trans hext') ▸ (by decide)⟩
  refine ((Engine.History.start.event (.request ?_ (by decide))).event
    (.request ?_ (by decide +kernel))).event (.source hsource (by decide +kernel))
  · exact hpath "a_q1.webp" "webp" (by decide) (by decide) (by decide)
  · exact hpath "a_q1.png" "png" (by decide) (by decide) (by decide)

end SideBySide

/-- A derivative of a png is requested as a webp and as a png, and the photo is replaced. The webp
is swept by the next request for it, which is then answered from the png: that one is stale, and the
answer comes of the photo that was replaced. -/
theorem swept_request_starts_stale :
    let path := RequestPath.single "a_q1.webp" (by decide)
    let beside := RequestPath.single "a_q1.png" (by decide)
    let m := SideBySide.edited.files
    let m' : MemoryFiles := { m with files := m.files.without [path.text] }
    let answer := ((Sketching.engine.serve path.text).run.run SideBySide.edited).1
    Sketching.engine.History (· ∈ ["webp", "png"]) SideBySide.photo SideBySide.edited ∧
      Swept .builtIn path m m' path ∧
      (resolveIn m'.look .builtIn path).toOption.map (·.file.path) = some beside.text ∧
      stalenessIn m'.look .builtIn beside = .stale [beside.text] ∧
      answer.toOption.map (·.origin) = some .derived ∧
      answer.toOption.bind (·.body.firstByte?) = some 65 ∧
      (m.files.get? "a.png").bind (·.content.firstByte?) = some 66 := by
  intro path beside m m' answer
  have hstale : stalenessIn m.look .builtIn path = .stale [path.text] := by decide +kernel
  have hfound : (fileAt m.look path.text).isSome = true := by decide +kernel
  obtain ⟨found, hfile⟩ := Option.isSome_iff_exists.1 hfound
  have hpath : RequestPath.ofRequest found.path = .ok path := by
    rw [(fileAt_eq_some.1 hfile).1]
    exact path.ofRequest_text
  have hswept : Swept .builtIn path m m' path :=
    .of_stale (resolveIn_eq_direct.2 hfile) hpath hstale
  exact ⟨SideBySide.history, hswept, by decide +kernel, by decide +kernel, by decide +kernel,
    by decide +kernel, by decide +kernel⟩

end Rendition

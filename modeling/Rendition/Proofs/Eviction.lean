import Mathlib.Data.List.Basic
import Rendition.Proofs.Freshness
import Rendition.Proofs.Sweeping

/-!
# Rendition.Proofs.Eviction

Which derivatives outlast a run in which nothing is edited. A derivative is stale as soon as any
file of its ancestry is newer, be it one that it was not made from. So it is not safe where it lies:
a shorter derivative of the same source that is kept later overtakes it, and the next check removes
it. Nothing else does.

The log of a run lists where derivatives were kept, latest first (`Engine.Serving`), and the times
on disk follow the log (`Logged`). So what a request evicts can be read off the log
(`Engine.Evicts`, `evicted_iff`).
-/

namespace Rendition

open Time

/-! ### What a request does to the files -/

/-- The files that a request for a path removes. -/
def removedBy (fallbacks : Fallbacks) (path : RequestPath) (picked : Bool) (m : MemoryFiles) :
    List String :=
  if picked then
    match resolveIn m.look fallbacks path with
    | .error _ => []
    | .ok r =>
      match RequestPath.ofRequest r.file.path with
      | .error _ => []
      | .ok onDisk =>
        match stalenessIn m.look fallbacks onDisk with
        | .fresh => []
        | .stale doomed => doomed
  else []

section Request

variable {γ κ η : Type} {engine : Engine MemoryFiles γ κ η} {fallbacks : Fallbacks}
  {path : RequestPath} {picked : Bool} {m t u : MemoryFiles} {k l : κ}

theorem mem_removedBy {name : String} :
    name ∈ removedBy fallbacks path picked m ↔
      picked = true ∧ ∃ r onDisk doomed, resolveIn m.look fallbacks path = .ok r ∧
        RequestPath.ofRequest r.file.path = .ok onDisk ∧
        stalenessIn m.look fallbacks onDisk = .stale doomed ∧ name ∈ doomed := by
  unfold removedBy
  cases picked with
  | false => simp
  | true =>
      cases resolveIn m.look fallbacks path with
      | error e => simp
      | ok r =>
          cases hpath : RequestPath.ofRequest r.file.path with
          | error e => simp [hpath]
          | ok onDisk => cases hstale : stalenessIn m.look fallbacks onDisk <;> simp [hpath, hstale]

/-- Settling on a resolution removes those files and leaves the others. -/
theorem Settles.files_eq {files : FileSystem MemoryFiles} {outcome : Except Error Resolution}
    (hfiles : files = MemoryFiles.fileSystem)
    (hsettle : Settles files MemoryFiles.look fallbacks path picked m outcome t) :
    t = { m with files := m.files.without (removedBy fallbacks path picked m) } := by
  cases hsettle with
  | unresolved hresolve => simp [removedBy, hresolve, Catalog.without]
  | unpicked => rfl
  | misnamed hresolve hpath => simp [removedBy, hresolve, hpath, Catalog.without]
  | fresh hresolve hpath hfresh => simp [removedBy, hresolve, hpath, hfresh, Catalog.without]
  | swept hresolve hpath hstale hremove | interrupted hresolve hpath hstale hremove =>
      obtain ⟨-, rfl⟩ := MemoryFiles.removeAll_eq hfiles hremove
      simp [removedBy, hresolve, hpath, hstale]

/-- A request removes those files, and may keep a derivative where there is no file then. -/
theorem Serves.files_cases {outcome : Except Error Served}
    (hfiles : engine.files = MemoryFiles.fileSystem)
    (hserve : Serves engine MemoryFiles.look path picked m k outcome u l) :
    let left := m.files.without (removedBy engine.fallbacks path picked m)
    u.files = left ∨ ∃ body, left.get? path.text = none ∧
      u.files = left.insert path.text ⟨body, m.now, m.now⟩ := by
  intro left
  cases hserve with
  | unsettled hsettle => exact Or.inl (by rw [hsettle.files_eq hfiles])
  | answered hsettle hanswer =>
      have ht := hsettle.files_eq hfiles
      cases hanswer with
      | unread hread => exact Or.inl (by rw [(MemoryFiles.read_eq_error hfiles hread).1, ht])
      | file hread => exact Or.inl (by rw [(MemoryFiles.read_eq_ok hfiles hread).1, ht])
      | undone hread => exact Or.inl (by rw [(MemoryFiles.read_eq_ok hfiles hread).1, ht])
      | made hread hexecute hkeep =>
          obtain ⟨rfl, -⟩ := MemoryFiles.read_eq_ok hfiles hread
          cases hkeep with
          | bare => exact Or.inl (by rw [ht])
          | written hchain hwrite =>
              obtain rfl := MemoryFiles.write_eq hfiles hwrite
              have hresolve := (hsettle.ok_inv_memory hfiles).1
              have hnone := Catalog.fileAt_look_eq_none.1 (resolveIn_eq_derived.1 hresolve).1
              rw [ht] at hnone
              exact Or.inr ⟨_, hnone, by rw [ht]; rfl⟩

/-- A request for a file that is fresh, or that is not checked, is answered with it and changes
nothing. -/
theorem Serves.eq_file {outcome : Except Error Served} {file : StoredFile}
    (hfiles : engine.files = MemoryFiles.fileSystem) (hget : m.files.get? path.text = some file)
    (hfresh : picked = true → stalenessIn m.look engine.fallbacks path = .fresh)
    (hserve : Serves engine MemoryFiles.look path picked m k outcome u l) :
    l = k ∧ u = m ∧ outcome = .ok (Engine.served path file.content
      (some (sourceModified m.look engine.fallbacks ⟨path.text, file.stat⟩)) .file) := by
  have hfound : fileAt m.look path.text = some ⟨path.text, file.stat⟩ :=
    Catalog.fileAt_look.2 ⟨file, hget, rfl⟩
  have hdirect : ∀ {outcome : Except Error Resolution} {t : MemoryFiles},
      Settles engine.files MemoryFiles.look engine.fallbacks path picked m outcome t →
      outcome = .ok (.direct ⟨path.text, file.stat⟩) ∧ t = m := by
    intro outcome t hsettle
    cases hpicked : picked with
    | true =>
        exact hsettle.of_fresh (resolveIn_eq_direct.2 hfound) path.ofRequest_text (hfresh hpicked)
    | false =>
        rw [hpicked] at hsettle
        exact hsettle.of_unpicked (resolveIn_eq_direct.2 hfound)
  cases hserve.answers hdirect with
  | unread hread => cases hget.symm.trans (MemoryFiles.read_eq_error hfiles hread).2
  | file hread =>
      obtain ⟨rfl, file', hget', rfl⟩ := MemoryFiles.read_eq_ok hfiles hread
      obtain rfl := Option.some.inj (hget.symm.trans hget')
      exact ⟨rfl, rfl, rfl⟩

end Request

/-! ### The log of a run -/

section Log

variable {γ κ η : Type} {engine : Engine MemoryFiles γ κ η} {w₀ w : World MemoryFiles γ κ}
  {originals files : Catalog StoredFile} {kept : List String}

/-- Where a request at a time keeps a derivative: at its path, if the file there has that time. -/
def Engine.keptAt (engine : Engine MemoryFiles γ κ η) (raw : String) (now : Timestamp)
    (w : World MemoryFiles γ κ) : List String :=
  match RequestPath.ofRequest raw with
  | .error _ => []
  | .ok path =>
    if ((engine.after raw now w).files.files.get? path.text).any (·.modified = now) then
      [path.text]
    else []

/-- The worlds that requests alone lead to from a first one, under a clock that goes forward, each
with the places where derivatives were kept, latest first. -/
inductive Engine.Serving (engine : Engine MemoryFiles γ κ η) (w₀ : World MemoryFiles γ κ) :
    List String → World MemoryFiles γ κ → Prop
  | start : Serving engine w₀ [] w₀
  | serve {kept : List String} {w : World MemoryFiles γ κ} (h : Serving engine w₀ kept w)
      (raw : String) (now : Timestamp) (hclock : w.files.StampedBefore now) :
      Serving engine w₀ (engine.keptAt raw now w ++ kept) (engine.after raw now w)

/-- Something was kept at a path after the last time that something was kept at another, or nothing
was ever kept at the other. -/
def KeptAfter (kept : List String) (a b : String) : Prop :=
  kept.idxOf a < kept.idxOf b

instance (kept : List String) (a b : String) : Decidable (KeptAfter kept a b) :=
  inferInstanceAs (Decidable (_ < _))

/-- Files are the originals as they were, or in the log, and their times follow the log. -/
structure Logged (originals : Catalog StoredFile) (kept : List String)
    (files : Catalog StoredFile) : Prop where
  original : ∀ name file, files.get? name = some file → name ∉ kept →
    originals.get? name = some file
  stamped : ∀ name file, files.get? name = some file → name ∈ kept →
    file.stat.newest = file.modified
  ordered : ∀ a b file file', files.get? a = some file → files.get? b = some file' →
    KeptAfter kept a b → file'.stat.newest < file.modified

namespace Logged

/-- Nothing is in the log at first. -/
theorem initial (originals : Catalog StoredFile) : Logged originals [] originals where
  original _ _ hget _ := hget
  stamped _ _ _ hmem := by cases hmem
  ordered _ _ _ _ _ _ hafter := by
    simp [KeptAfter] at hafter

theorem without (h : Logged originals kept files) (names : List String) :
    Logged originals kept (files.without names) where
  original name file hget := h.original name file (Catalog.get?_of_without hget)
  stamped name file hget := h.stamped name file (Catalog.get?_of_without hget)
  ordered a b file file' hget hget' :=
    h.ordered a b file file' (Catalog.get?_of_without hget) (Catalog.get?_of_without hget')

/-- A file that is put in place later than all others is the latest in the log. -/
theorem insert (h : Logged originals kept files) {now : Timestamp}
    (hclock : ∀ name file, files.get? name = some file → file.stat.newest < now) (name : String)
    (body : Content) : Logged originals (name :: kept) (files.insert name ⟨body, now, now⟩) where
  original other file hget hnot := by
    have hne : other ≠ name := by
      rintro rfl
      exact hnot List.mem_cons_self
    rw [Catalog.get?_insert, if_neg hne] at hget
    exact h.original other file hget fun hmem => hnot (List.mem_cons_of_mem _ hmem)
  stamped other file hget hmem := by
    rw [Catalog.get?_insert] at hget
    split at hget
    · obtain rfl := Option.some.inj hget
      exact StoredFile.newest_stat body now
    · next hne => exact h.stamped other file hget ((List.mem_cons.1 hmem).resolve_left hne)
  ordered a b file file' hget hget' hafter := by
    have hb : b ≠ name := by
      rintro rfl
      simp [KeptAfter] at hafter
    rw [Catalog.get?_insert, if_neg hb] at hget'
    rw [Catalog.get?_insert] at hget
    split at hget
    · obtain rfl := Option.some.inj hget
      exact hclock b file' hget'
    · next ha =>
        refine h.ordered a b file file' hget hget' ?_
        rw [KeptAfter, List.idxOf_cons_ne _ (Ne.symm ha), List.idxOf_cons_ne _ (Ne.symm hb)]
          at hafter
        exact Nat.lt_of_succ_lt_succ hafter

/-- Of a kept file and another one, the other one is newer exactly if it was kept later. -/
theorem newer_iff (h : Logged originals kept files) {a b : String} {file file' : StoredFile}
    (hget : files.get? a = some file) (hget' : files.get? b = some file') (hb : b ∈ kept) :
    file'.modified < file.stat.newest ↔ KeptAfter kept a b := by
  have hnewest := h.stamped b file' hget' hb
  constructor
  · intro hnewer
    refine Nat.lt_of_not_le fun hidx => ?_
    rcases Nat.lt_or_eq_of_le hidx with hlt | heq
    · have hold := h.ordered b a file' file hget' hget hlt
      simp only [Timestamp.lt_def] at hold hnewer
      omega
    · -- Where the log has the two at one place, they are one file, and none is newer than itself.
      have ha : a ∈ kept := by
        rw [← List.idxOf_lt_length_iff, ← heq, List.idxOf_lt_length_iff]
        exact hb
      obtain rfl := (List.idxOf_inj hb).1 heq
      obtain rfl := Option.some.inj (hget.symm.trans hget')
      rw [hnewest] at hnewer
      exact absurd hnewer (Int.lt_irrefl _)
  · intro hafter
    have hlater := h.ordered a b file file' hget hget' hafter
    have hfile := file.nanos_newest_stat
    have hfile' := file'.nanos_newest_stat
    simp only [Timestamp.lt_def] at *
    omega

end Logged

end Log

/-! ### Requests in a logged state -/

section Overtaken

variable {fallbacks : Fallbacks} {originals files : Catalog StoredFile} {kept : List String}
  {onDisk : RequestPath}

/-- There is a file at a path, and something in its ancestry was kept after it. -/
def Overtaken (fallbacks : Fallbacks) (kept : List String) (files : Catalog StoredFile)
    (onDisk : RequestPath) : Prop :=
  (files.get? onDisk.text).isSome ∧
    ∃ level ∈ ancestorsIn files.look fallbacks onDisk, KeptAfter kept level.path onDisk.text

/-- The files that go together: one and its ancestry, up to the last file of that. -/
def goneWith (fallbacks : Fallbacks) (files : Catalog StoredFile) (onDisk : RequestPath) :
    List String :=
  onDisk.text :: (ancestorsIn files.look fallbacks onDisk).dropLast.map (·.path)

/-- What an ancestry lists is there. -/
theorem exists_of_mem_ancestorsIn {level : FoundFile}
    (h : level ∈ ancestorsIn files.look fallbacks onDisk) :
    ∃ file, files.get? level.path = some file ∧ level.stat = file.stat := by
  cases hsplit : splitExtension onDisk.fileName with
  | none => simp [ancestorsIn_eq_nil hsplit] at h
  | some parts =>
      obtain ⟨cut, -, hfound⟩ := (mem_ancestorsIn hsplit).1 h
      obtain ⟨c, -, file, hget, rfl⟩ := Catalog.exists_of_firstAt hfound
      exact ⟨file, hget, rfl⟩

/-- If no original has the name of a derivative, the stale files are the overtaken ones. -/
theorem Logged.stale_iff (h : Logged originals kept files)
    (hpristine : ∀ name, (originals.get? name).isSome → namesDerivative name = false)
    {doomed : List String} :
    stalenessIn files.look fallbacks onDisk = .stale doomed ↔
      Overtaken fallbacks kept files onDisk ∧ doomed = goneWith fallbacks files onDisk := by
  -- A path with an ancestry has the name of a derivative, so its file was kept.
  have hkept : ∀ {level file}, level ∈ ancestorsIn files.look fallbacks onDisk →
      files.get? onDisk.text = some file → onDisk.text ∈ kept := by
    intro level file hlevel hget
    refine Decidable.byContradiction fun hnot => ?_
    have horiginal := hpristine _ (Option.isSome_of_eq_some (h.original _ file hget hnot))
    cases hsplit : splitExtension onDisk.fileName with
    | none => simp [ancestorsIn_eq_nil hsplit] at hlevel
    | some parts =>
        obtain ⟨cut, hcut, -⟩ := (mem_ancestorsIn hsplit).1 hlevel
        simp [namesDerivative_of_cut hsplit hcut] at horiginal
  rw [stalenessIn_eq_stale]
  constructor
  · rintro ⟨found, hfound, ⟨level, hlevel, hnewer⟩, rfl⟩
    obtain ⟨file, hget, rfl⟩ := Catalog.fileAt_look.1 hfound
    obtain ⟨source, hsource, hstat⟩ := exists_of_mem_ancestorsIn hlevel
    rw [hstat] at hnewer
    have hafter := (h.newer_iff hsource hget (hkept hlevel hget)).1 hnewer
    exact ⟨⟨Option.isSome_of_eq_some hget, level, hlevel, hafter⟩, rfl⟩
  · rintro ⟨⟨hthere, level, hlevel, hafter⟩, rfl⟩
    obtain ⟨file, hget⟩ := Option.isSome_iff_exists.1 hthere
    obtain ⟨source, hsource, hstat⟩ := exists_of_mem_ancestorsIn hlevel
    have hnewer := (h.newer_iff hsource hget (hkept hlevel hget)).2 hafter
    refine ⟨_, Catalog.fileAt_look.2 ⟨file, hget, rfl⟩, ⟨level, hlevel, ?_⟩, rfl⟩
    rw [hstat]
    exact hnewer

end Overtaken

section Run

variable {γ κ η : Type} {engine : Engine MemoryFiles γ κ η} {w₀ w : World MemoryFiles γ κ}
  {kept : List String} {raw : String} {path : RequestPath} {now : Timestamp}

/-- The files that a request removes. -/
def Engine.removedBy (engine : Engine MemoryFiles γ κ η) (raw : String)
    (w : World MemoryFiles γ κ) : List String :=
  match RequestPath.ofRequest raw with
  | .error _ => []
  | .ok path => Rendition.removedBy engine.fallbacks path w.sampler.next.1 w.files

/-- A request evicts a file if it is picked for a check, finds that the file on disk it would be
answered from is overtaken, and the file goes with that one. -/
def Engine.Evicts (engine : Engine MemoryFiles γ κ η) (kept : List String) (raw : String)
    (w : World MemoryFiles γ κ) (name : String) : Prop :=
  w.sampler.next.1 = true ∧ ∃ path r onDisk, RequestPath.ofRequest raw = .ok path ∧
    resolveIn w.files.look engine.fallbacks path = .ok r ∧
    RequestPath.ofRequest r.file.path = .ok onDisk ∧
    Overtaken engine.fallbacks kept w.files.files onDisk ∧
    name ∈ goneWith engine.fallbacks w.files.files onDisk

/-- A request evicts what it removes. -/
theorem Logged.mem_removedBy {originals : Catalog StoredFile}
    (h : Logged originals kept w.files.files)
    (hpristine : ∀ name, (originals.get? name).isSome → namesDerivative name = false)
    {name : String} : name ∈ engine.removedBy raw w ↔ engine.Evicts kept raw w name := by
  unfold Engine.removedBy Engine.Evicts
  cases hraw : RequestPath.ofRequest raw with
  | error e => simp
  | ok path =>
      simp only [Rendition.mem_removedBy]
      constructor
      · rintro ⟨hpicked, r, onDisk, doomed, hresolve, hpath, hstale, hmem⟩
        obtain ⟨hovertaken, rfl⟩ := (h.stale_iff hpristine).1 hstale
        exact ⟨hpicked, path, r, onDisk, rfl, hresolve, hpath, hovertaken, hmem⟩
      · rintro ⟨hpicked, path', r, onDisk, hpath', hresolve, hpath, hovertaken, hmem⟩
        obtain rfl := Except.ok.inj hpath'
        exact ⟨hpicked, r, onDisk, _, hresolve, hpath, (h.stale_iff hpristine).2 ⟨hovertaken, rfl⟩,
          hmem⟩

section Step

variable (hfiles : engine.files = MemoryFiles.fileSystem) (hdisk : engine.backend = .disk)
  (hclock : w.files.StampedBefore now)

include hfiles hdisk hclock

/-- A request leaves what it does not remove, and then keeps a derivative, or does not. -/
theorem Engine.after_cases (raw : String) :
    let left := w.files.files.without (engine.removedBy raw w)
    engine.keptAt raw now w = [] ∧ (engine.after raw now w).files.files = left ∨
      ∃ name body, engine.keptAt raw now w = [name] ∧ left.get? name = none ∧
        (engine.after raw now w).files.files = left.insert name ⟨body, now, now⟩ := by
  intro left
  cases hraw : RequestPath.ofRequest raw with
  | error e =>
      have hleft : left = w.files.files := by
        simp [left, Engine.removedBy, hraw, Catalog.without]
      refine Or.inl ⟨by simp [Engine.keptAt, hraw], ?_⟩
      rw [hleft, Engine.after, Engine.run_serve_unnamed hraw]
      rfl
  | ok path =>
      obtain ⟨outcome, files, codec, sampler, hserve, -, hrun⟩ :=
        Engine.serves hdisk (MemoryFiles.looks_stat hfiles) hraw
          { w with files := w.files.atTime now }
      have hafter : (engine.after raw now w).files = files := by
        rw [Engine.after, hrun]
      have hleft : left = (w.files.atTime now).files.without
          (Rendition.removedBy engine.fallbacks path w.sampler.next.1 (w.files.atTime now)) := by
        simp only [left, Engine.removedBy, hraw]
        rfl
      rw [Engine.keptAt, hraw, hafter, hleft]
      rcases hserve.files_cases hfiles with hfiles' | ⟨body, hnone, hfiles'⟩
      · refine Or.inl ⟨if_neg ?_, hfiles'⟩
        -- Nothing that was there before has the time of the request.
        intro hany
        obtain ⟨file, hget, htime⟩ := (Option.any_eq_true _ _).1 hany
        rw [hfiles'] at hget
        have hlt := hclock.modified_lt (Catalog.get?_of_without hget)
        rw [of_decide_eq_true htime] at hlt
        exact Int.lt_irrefl _ hlt
      · refine Or.inr ⟨path.text, body, if_pos ?_, hnone, hfiles'⟩
        simp [hfiles', Catalog.get?_insert, MemoryFiles.atTime]

/-- A request keeps to the log. -/
theorem Logged.after {originals : Catalog StoredFile} (h : Logged originals kept w.files.files) :
    Logged originals (engine.keptAt raw now w ++ kept) (engine.after raw now w).files.files := by
  have hleft := h.without (engine.removedBy raw w)
  rcases Engine.after_cases hfiles hdisk hclock raw with
    ⟨hkept, hafter⟩ | ⟨name, body, hkept, -, hafter⟩
  · rw [hkept, hafter]
    exact hleft
  · rw [hkept, hafter]
    exact hleft.insert (fun other file hget =>
      hclock.newest_lt (Catalog.get?_of_without hget)) name body

/-- A request removes what it evicts, or puts another file in its place, and leaves all others. -/
theorem Logged.get?_after_ne_iff {originals : Catalog StoredFile}
    (h : Logged originals kept w.files.files)
    (hpristine : ∀ name, (originals.get? name).isSome → namesDerivative name = false)
    {name : String} {file : StoredFile} (hget : w.files.files.get? name = some file) :
    (engine.after raw now w).files.files.get? name ≠ some file ↔
      engine.Evicts kept raw w name := by
  rw [← h.mem_removedBy hpristine]
  have hleft : (w.files.files.without (engine.removedBy raw w)).get? name ≠ some file ↔
      name ∈ engine.removedBy raw w := by
    rw [Catalog.get?_without, hget]
    simp
  rcases Engine.after_cases hfiles hdisk hclock raw with
    ⟨-, hafter⟩ | ⟨other, body, -, hnone, hafter⟩
  · rw [hafter]
    exact hleft
  · rw [hafter, Catalog.get?_insert]
    by_cases hother : name = other
    · -- A file is only kept where there is none, so the one that was there is gone.
      subst hother
      have hlt := hclock.modified_lt hget
      rw [hnone] at hleft
      rw [if_pos rfl, ← hleft]
      refine iff_of_true (fun heq => ?_) (by simp)
      obtain rfl := Option.some.inj heq
      exact Int.lt_irrefl _ hlt
    · rw [if_neg hother]
      exact hleft

omit hclock in
/-- A request for a file that it does not evict is answered with it, without the codec. -/
theorem Logged.run_serve {originals : Catalog StoredFile}
    (h : Logged originals kept w.files.files)
    (hpristine : ∀ name, (originals.get? name).isSome → namesDerivative name = false)
    (hraw : RequestPath.ofRequest raw = .ok path) {file : StoredFile}
    (hget : w.files.files.get? path.text = some file)
    (hspared : ¬ engine.Evicts kept raw w path.text) :
    ∃ served, ((engine.serve raw).run.run { w with files := w.files.atTime now }).1 = .ok served ∧
      served.body = file.content ∧ served.origin = .file ∧
      (engine.after raw now w).codec = w.codec := by
  obtain ⟨outcome, files, codec, sampler, hserve, -, hrun⟩ :=
    Engine.serves hdisk (MemoryFiles.looks_stat hfiles) hraw
      { w with files := w.files.atTime now }
  have hfresh : w.sampler.next.1 = true →
      stalenessIn (w.files.atTime now).look engine.fallbacks path = .fresh := by
    intro hpicked
    cases hstale : stalenessIn (w.files.atTime now).look engine.fallbacks path with
    | fresh => rfl
    | stale doomed =>
        obtain ⟨hovertaken, rfl⟩ := (h.stale_iff hpristine).1 hstale
        have hdirect : resolveIn w.files.look engine.fallbacks path
            = .ok (.direct ⟨path.text, file.stat⟩) :=
          resolveIn_eq_direct.2 (Catalog.fileAt_look.2 ⟨file, hget, rfl⟩)
        exact absurd ⟨hpicked, path, _, path, hraw, hdirect, path.ofRequest_text, hovertaken,
          List.mem_cons_self⟩ hspared
  have hget' : (w.files.atTime now).files.get? path.text = some file := hget
  obtain ⟨rfl, -, rfl⟩ := hserve.eq_file hfiles hget' hfresh
  rw [Engine.after, hrun]
  exact ⟨_, rfl, rfl, rfl, rfl⟩

end Step

/-- A run of requests keeps to the log. -/
theorem Engine.Serving.logged (hfiles : engine.files = MemoryFiles.fileSystem)
    (hdisk : engine.backend = .disk) (h : engine.Serving w₀ kept w) :
    Logged w₀.files.files kept w.files.files := by
  induction h with
  | start => exact .initial _
  | serve _ raw now hclock ih => exact ih.after hfiles hdisk hclock

end Run

/-! ### What is evicted -/

/-- In a run of requests alone, whatever was requested before: a request removes or replaces a file
exactly if it is picked for a check, finds that the file on disk it would be answered from is
overtaken, and the file goes with that one. Every other request leaves the file as it is, and if it
is for that file, it is answered with it, without the codec. -/
theorem evicted_iff {γ κ η : Type} {engine : Engine MemoryFiles γ κ η}
    {w₀ w : World MemoryFiles γ κ} {kept : List String}
    (hfiles : engine.files = MemoryFiles.fileSystem) (hdisk : engine.backend = .disk)
    (hpristine : ∀ name, (w₀.files.files.get? name).isSome → namesDerivative name = false)
    (hrun : engine.Serving w₀ kept w) {name : String} {file : StoredFile}
    (hget : w.files.files.get? name = some file) {raw : String} {now : Timestamp}
    (hclock : w.files.StampedBefore now) :
    ((engine.after raw now w).files.files.get? name ≠ some file ↔
      engine.Evicts kept raw w name) ∧
    (¬ engine.Evicts kept raw w name →
      (∃ path, RequestPath.ofRequest raw = .ok path ∧ path.text = name) →
      ∃ served,
        ((engine.serve raw).run.run { w with files := w.files.atTime now }).1 = .ok served ∧
        served.body = file.content ∧ served.origin = .file ∧
        (engine.after raw now w).codec = w.codec) := by
  have hlogged := hrun.logged hfiles hdisk
  refine ⟨hlogged.get?_after_ne_iff hfiles hdisk hclock hpristine hget, ?_⟩
  rintro hspared ⟨path, hraw, rfl⟩
  exact hlogged.run_serve hfiles hdisk hpristine hraw hget hspared

/-! ### A derivative that is overtaken -/

namespace Sketching

/-- A derivative of the photo is kept, and then the shorter one that it goes back to. -/
def overtaking : World MemoryFiles Unit Codec.Sketch.Record :=
  engine.after "a_q1.jpg" (instant 3) (engine.after "a_q1_q2.jpg" (instant 2) (photo ⟨0, 0⟩))

theorem serving_overtaking :
    engine.Serving (photo ⟨0, 0⟩) ["a_q1.jpg", "a_q1_q2.jpg"] overtaking := by
  have hlonger : engine.keptAt "a_q1_q2.jpg" (instant 2) (photo ⟨0, 0⟩) = ["a_q1_q2.jpg"] := by
    decide +kernel
  have hshorter : engine.keptAt "a_q1.jpg" (instant 3)
      (engine.after "a_q1_q2.jpg" (instant 2) (photo ⟨0, 0⟩)) = ["a_q1.jpg"] := by
    decide +kernel
  have hfirst : engine.Serving (photo ⟨0, 0⟩) _ _ :=
    .serve .start "a_q1_q2.jpg" (instant 2) (by decide)
  have hsecond : engine.Serving (photo ⟨0, 0⟩) _ _ :=
    hfirst.serve "a_q1.jpg" (instant 3) (by decide +kernel)
  rw [hshorter, hlonger] at hsecond
  exact hsecond

theorem stampedBefore_overtaking : overtaking.files.StampedBefore (instant 4) := by
  decide +kernel

theorem exists_overtaking :
    ∀ name ∈ ["a_q1.jpg", "a_q1_q2.jpg"], ∃ file, overtaking.files.files.get? name = some file := by
  intro name hname
  refine Option.isSome_iff_exists.1 ?_
  revert name
  decide +kernel

/-- The photo is all that the shorter derivative goes back to. -/
theorem not_evicts_overtaking :
    ¬ engine.Evicts ["a_q1.jpg", "a_q1_q2.jpg"] "a_q1.jpg" overtaking "a_q1.jpg" := by
  obtain ⟨file, hget⟩ := exists_overtaking "a_q1.jpg" (by decide)
  rintro ⟨-, path, r, onDisk, hraw, hresolve, hpath, ⟨-, level, hlevel, hafter⟩, -⟩
  have hsingle := RequestPath.ofRequest_single "a_q1.jpg" (by decide)
  obtain rfl := Except.ok.inj (hsingle.symm.trans hraw)
  have hdirect : resolveIn overtaking.files.look .builtIn (.single "a_q1.jpg" (by decide))
      = .ok (.direct ⟨_, file.stat⟩) :=
    resolveIn_eq_direct.2 (Catalog.fileAt_look.2 ⟨file, hget, rfl⟩)
  obtain rfl := Except.ok.inj (hdirect.symm.trans hresolve)
  obtain rfl := Except.ok.inj ((RequestPath.ofRequest_text _).symm.trans hpath)
  revert level
  decide +kernel

end Sketching

/-- The longer derivative is overtaken. A request for it evicts it; a request for the shorter one
does not, and is answered with that. -/
theorem evicted_iff_overtaking :
    Sketching.engine.Evicts ["a_q1.jpg", "a_q1_q2.jpg"] "a_q1_q2.jpg" Sketching.overtaking
        "a_q1_q2.jpg" ∧
      ¬ Sketching.engine.Evicts ["a_q1.jpg", "a_q1_q2.jpg"] "a_q1.jpg" Sketching.overtaking
        "a_q1.jpg" ∧
      ∃ served, ((Sketching.engine.serve "a_q1.jpg").run.run
          { Sketching.overtaking with
            files := Sketching.overtaking.files.atTime (Sketching.instant 4) }).1 = .ok served ∧
        served.origin = .file := by
  have hpristine : ∀ name, ((Sketching.photo ⟨0, 0⟩).files.files.get? name).isSome →
      namesDerivative name = false := (Sketching.setting ⟨0, 0⟩).pristine.notDerivative
  have hclock := Sketching.stampedBefore_overtaking
  obtain ⟨longer, hlonger⟩ := Sketching.exists_overtaking "a_q1_q2.jpg" (by decide)
  obtain ⟨shorter, hshorter⟩ := Sketching.exists_overtaking "a_q1.jpg" (by decide)
  have hreplaced : (Sketching.overtaking.files.files.get? "a_q1_q2.jpg").map (·.modified)
      ≠ ((Sketching.engine.after "a_q1_q2.jpg" (Sketching.instant 4)
        Sketching.overtaking).files.files.get? "a_q1_q2.jpg").map (·.modified) := by
    decide +kernel
  have hevicts : Sketching.engine.Evicts ["a_q1.jpg", "a_q1_q2.jpg"] "a_q1_q2.jpg"
      Sketching.overtaking "a_q1_q2.jpg" := by
    refine (evicted_iff rfl rfl hpristine Sketching.serving_overtaking hlonger hclock).1.1 ?_
    intro hsame
    rw [hsame, hlonger] at hreplaced
    exact hreplaced rfl
  have hnamed : ∃ path, RequestPath.ofRequest "a_q1.jpg" = .ok path ∧ path.text = "a_q1.jpg" :=
    ⟨_, RequestPath.ofRequest_single "a_q1.jpg" (by decide), by decide⟩
  have hspared := Sketching.not_evicts_overtaking
  obtain ⟨served, hserved, -, horigin, -⟩ :=
    (evicted_iff rfl rfl hpristine Sketching.serving_overtaking hshorter hclock).2 hspared hnamed
  exact ⟨hevicts, hspared, served, hserved, horigin⟩

/-- The longer derivative is kept, and no file is changed but by requests. Yet it is served anew. -/
theorem overtaken_derivative_evicted :
    (∀ name, ((Sketching.photo ⟨0, 0⟩).files.files.get? name).isSome →
        namesDerivative name = false) ∧
      Sketching.engine.Serving (Sketching.photo ⟨0, 0⟩) ["a_q1.jpg", "a_q1_q2.jpg"]
        Sketching.overtaking ∧
      Sketching.overtaking.files.StampedBefore (Sketching.instant 4) ∧
      (∃ file, Sketching.overtaking.files.files.get? "a_q1_q2.jpg" = some file) ∧
      ((Sketching.engine.serve "a_q1_q2.jpg").run.run
        { Sketching.overtaking with
          files := Sketching.overtaking.files.atTime (Sketching.instant 4) }).1.toOption.map
            (·.origin) = some .derived :=
  ⟨(Sketching.setting ⟨0, 0⟩).pristine.notDerivative, Sketching.serving_overtaking,
    Sketching.stampedBefore_overtaking, Sketching.exists_overtaking _ (by decide),
    by decide +kernel⟩

end Rendition

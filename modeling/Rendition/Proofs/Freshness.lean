import Rendition.Proofs.Provenance

/-!
# Rendition.Proofs.Freshness

Fresh bytes, over whole runs. A run mixes requests for paths of one extension with new contents for
the originals, in any order, under a clock that goes forward. What one request or one edit preserves
is `Current`. It is preserved by every request that checks its file, and by one that does not as
long as it starts from a file that the check would have called fresh (`Engine.Careful`).

So with a check at every request the answers are always made from the originals as they are
(`served_bytes_current`). With fewer checks a request can start from a file that is outdated and
stamp what it makes of it as new; then a verdict is wrong, and stays so
(`Rendition.Proofs.Sampling`).
-/

namespace Rendition

open Time

/-! ### Files in memory under a clock -/

namespace MemoryFiles

/-- The files when the clock shows a time. -/
def atTime (now : Timestamp) (m : MemoryFiles) : MemoryFiles := { m with now }

end MemoryFiles

/-! ### One request -/

section Request

variable {γ κ η : Type} {engine : Engine MemoryFiles γ κ η} {originals : Catalog StoredFile}
  {extension : String} {path : RequestPath} {base : String} {tokens : List String}
  {m t u : MemoryFiles} {k l : κ} {picked : Bool} {r : Resolution}

/-- Disk mode on files in memory, with a deterministic codec and plain further extensions, and
originals of one extension that have no names of derivatives. -/
structure DiskSetting (engine : Engine MemoryFiles γ κ η) (originals : Catalog StoredFile)
    (extension : String) : Prop where
  files : engine.files = MemoryFiles.fileSystem
  disk : engine.backend = .disk
  deterministic : engine.codec.Deterministic
  plain : engine.fallbacks.Plain
  pristine : Pristine originals extension

variable (hs : DiskSetting engine originals extension)

include hs

/-- Settling keeps the files current, and the originals as they are. -/
theorem Settles.current {outcome : Except Error Resolution}
    (hsettle : Settles engine.files MemoryFiles.look engine.fallbacks path picked m outcome t)
    (h : Current engine.codec originals extension m.files) :
    Current engine.codec originals extension t.files ∧
      ∀ name, (originals.get? name).isSome → t.files.get? name = m.files.get? name := by
  cases hsettle with
  | unresolved | unpicked | misnamed | fresh => exact ⟨h, fun _ _ => rfl⟩
  | swept hresolve hpath hstale hremove =>
      obtain ⟨-, rfl⟩ := MemoryFiles.removeAll_eq hs.files hremove
      have hkept : ∀ name, (originals.get? name).isSome →
          (m.files.without _).get? name = m.files.get? name :=
        fun name hname => Current.get?_without_doomed hs.pristine hs.plain hstale hname
      exact ⟨h.without hkept, hkept⟩
  | interrupted hresolve hpath hstale hremove =>
      cases (MemoryFiles.removeAll_eq hs.files hremove).1

/-- A request settles on a resolution that is grounded in the original as it is, if it checks its
file or starts from a fresh one. -/
theorem Settles.grounds
    (hsettle : Settles engine.files MemoryFiles.look engine.fallbacks path picked m (.ok r) t)
    (h : Current engine.codec originals extension m.files)
    (hcareful : picked = true ∨ ∀ onDisk, RequestPath.ofRequest r.file.path = .ok onDisk →
      stalenessIn m.look engine.fallbacks onDisk = .fresh)
    (hrooted : Rooted originals extension path base tokens) {source : StoredFile}
    (hsource : t.files.get? (pathOf path.dir base extension) = some source) :
    Grounds engine.codec extension t.files source.content tokens r := by
  have ht := (hsettle.current hs h).1
  obtain ⟨hresolve, hleft⟩ := hsettle.ok_inv_memory hs.files
  rcases hleft with ⟨rfl, hchecked⟩ | ⟨first, onDisk, doomed, -, hfirst, hpath, hstale, rfl⟩
  · obtain ⟨onDisk, front, back, hstart⟩ :=
      hrooted.startsAt hs.pristine hs.plain h.present h.uniform hresolve
    have hpath : RequestPath.ofRequest r.file.path = .ok onDisk := by
      rw [hstart.text, onDisk.ofRequest_text]
    have hfresh : stalenessIn t.look engine.fallbacks onDisk = .fresh := by
      rcases hcareful with hpicked | hcareful
      · obtain ⟨checked, hpath', hfresh⟩ := hchecked hpicked
        obtain rfl := Except.ok.inj (hpath.symm.trans hpath')
        exact hfresh
      · exact hcareful onDisk hpath
    exact h.grounds_of_fresh hs.pristine hs.plain hrooted hresolve hpath hfresh hsource
  · exact h.grounds_of_swept hs.pristine hs.plain hrooted hfirst hpath hstale ht hresolve hsource

/-- A path that is answered by a derivative names no file. -/
theorem Settles.get?_of_derived {found : FoundFile} {chain : Chain} {ext : String}
    (hsettle : Settles engine.files MemoryFiles.look engine.fallbacks path picked m
      (.ok (.derived found chain ext)) t) : t.files.get? path.text = none := by
  have hresolve := (hsettle.ok_inv_memory hs.files).1
  exact Catalog.fileAt_look_eq_none.1 (resolveIn_eq_derived.1 hresolve).1

/-- The answer to a grounded request is derived from the original. -/
theorem Answers.derivedFrom {content : Content} {served : Served}
    (hanswer : Answers engine MemoryFiles.look path r t k (.ok served) u l)
    (hgrounds : Grounds engine.codec extension t.files content tokens r) :
    DerivedFrom engine.codec extension content tokens served.body := by
  generalize houtcome : (Except.ok served : Except Error Served) = outcome at hanswer
  cases hanswer with
  | unread | undone => cases houtcome
  | file hread =>
      obtain rfl := Except.ok.inj houtcome
      obtain ⟨-, file, hget, hcontent⟩ := MemoryFiles.read_eq_ok hs.files hread
      cases hgrounds with
      | direct hget' hderived =>
          obtain rfl := Option.some.inj (hget.symm.trans hget')
          exact hcontent ▸ hderived
  | made hread hexecute =>
      obtain rfl := Except.ok.inj houtcome
      obtain ⟨-, file, hget, rfl⟩ := MemoryFiles.read_eq_ok hs.files hread
      exact hgrounds.made hs.deterministic hget hexecute

/-- Answering a grounded request keeps the files current. -/
theorem Answers.current {outcome : Except Error Served}
    (hanswer : Answers engine MemoryFiles.look path r t k outcome u l)
    (h : Current engine.codec originals extension t.files)
    (hpath : path.extension = some extension)
    (hnone : ∀ {found chain ext}, r = .derived found chain ext → t.files.get? path.text = none)
    (hgrounds : ∀ {found chain ext}, r = .derived found chain ext →
      ∀ {base : String} {tokens : List String} {source : StoredFile},
        Rooted originals extension path base tokens →
        t.files.get? (pathOf path.dir base extension) = some source →
        Grounds engine.codec extension t.files source.content tokens r) :
    Current engine.codec originals extension u.files := by
  cases hanswer with
  | unread hread => exact (MemoryFiles.read_eq_error hs.files hread).1 ▸ h
  | file hread => exact (MemoryFiles.read_eq_ok hs.files hread).1 ▸ h
  | undone hread => exact (MemoryFiles.read_eq_ok hs.files hread).1 ▸ h
  | made hread hexecute hkeep =>
      obtain ⟨rfl, file, hget, rfl⟩ := MemoryFiles.read_eq_ok hs.files hread
      cases hkeep with
      | bare => exact h
      | written hchain hwrite =>
          obtain rfl := MemoryFiles.write_eq hs.files hwrite
          refine h.insert_derived hpath (hnone rfl) fun hrooted hsource => ?_
          exact (hgrounds rfl hrooted hsource).made hs.deterministic hget hexecute

omit hs in
theorem Settles.resolveIn_of_not_picked {files : FileSystem MemoryFiles} {fallbacks : Fallbacks}
    (hsettle : Settles files MemoryFiles.look fallbacks path picked m (.ok r) t)
    (hpicked : picked ≠ true) : resolveIn m.look fallbacks path = .ok r := by
  rcases hsettle.ok_inv with ⟨hresolve, -, -⟩ | ⟨_, _, _, hpicked', -⟩
  · exact hresolve
  · exact absurd hpicked' hpicked

/-- Does a request check the file it starts from, or start from a file that is fresh? A request that
is answered with a file as it is starts from nothing. -/
def Engine.Careful (engine : Engine MemoryFiles γ κ η) (picked : Bool) (m : MemoryFiles)
    (path : RequestPath) : Prop :=
  picked = true ∨ ∀ source chain extension onDisk,
    resolveIn m.look engine.fallbacks path = .ok (.derived source chain extension) →
    RequestPath.ofRequest source.path = .ok onDisk →
    stalenessIn m.look engine.fallbacks onDisk = .fresh

/-- A careful request keeps the files current. -/
theorem Serves.current {outcome : Except Error Served}
    (hserve : Serves engine MemoryFiles.look path picked m k outcome u l)
    (h : Current engine.codec originals extension m.files)
    (hpath : path.extension = some extension) (hcareful : engine.Careful picked m path) :
    Current engine.codec originals extension u.files := by
  cases hserve with
  | unsettled hsettle => exact (hsettle.current hs h).1
  | answered hsettle hanswer =>
      refine hanswer.current hs (hsettle.current hs h).1 hpath ?_ ?_
      · rintro found chain ext rfl
        exact hsettle.get?_of_derived hs
      · rintro found chain ext rfl base tokens source hrooted hsource
        refine hsettle.grounds hs h ?_ hrooted hsource
        by_cases hpicked : picked = true
        · exact Or.inl hpicked
        · have hresolve := hsettle.resolveIn_of_not_picked hpicked
          exact Or.inr fun onDisk => hcareful.resolve_left hpicked found chain ext onDisk hresolve

/-- The answer to a request that checks its file is derived from the original as it is. -/
theorem Serves.derivedFrom {served : Served}
    (hserve : Serves engine MemoryFiles.look path true m k (.ok served) u l)
    (h : Current engine.codec originals extension m.files)
    (hrooted : Rooted originals extension path base tokens) {source : StoredFile}
    (hsource : m.files.get? (pathOf path.dir base extension) = some source) :
    DerivedFrom engine.codec extension source.content tokens served.body := by
  cases hserve with
  | answered hsettle hanswer =>
      have hkept := (hsettle.current hs h).2 _ hrooted.original
      have hgrounds := hsettle.grounds hs h (Or.inl rfl) hrooted (hkept.trans hsource)
      exact hanswer.derivedFrom hs hgrounds

end Request

/-! ### Runs -/

section Run

variable {γ κ η : Type}

/-- The world after a request that is made at a time. -/
def Engine.after (engine : Engine MemoryFiles γ κ η) (raw : String) (now : Timestamp)
    (w : World MemoryFiles γ κ) : World MemoryFiles γ κ :=
  ((engine.serve raw).run.run { w with files := w.files.atTime now }).2

/-- One thing that happens: an allowed request for a path with the extension, or a new content for
an original. What it stamps, it stamps later than everything before. -/
inductive Engine.Step (engine : Engine MemoryFiles γ κ η)
    (allowed : Bool → MemoryFiles → RequestPath → Prop) (originals : Catalog StoredFile)
    (extension : String) : World MemoryFiles γ κ → World MemoryFiles γ κ → Prop
  | request {w : World MemoryFiles γ κ} {raw : String} {path : RequestPath} {now : Timestamp}
      (hraw : RequestPath.ofRequest raw = .ok path) (hpath : path.extension = some extension)
      (hallowed : allowed w.sampler.next.1 w.files path) (hclock : w.files.StampedBefore now) :
      Step engine allowed originals extension w (engine.after raw now w)
  | edit {w : World MemoryFiles γ κ} {name : String} {content : Content} {now : Timestamp}
      (hname : (originals.get? name).isSome) (hclock : w.files.StampedBefore now) :
      Step engine allowed originals extension w
        { w with files := w.files.insert name ⟨content, now, now⟩ }

/-- The worlds that steps lead to from a first one, whose files are the originals. -/
inductive Engine.Run (engine : Engine MemoryFiles γ κ η)
    (allowed : Bool → MemoryFiles → RequestPath → Prop) (extension : String)
    (w₀ : World MemoryFiles γ κ) : World MemoryFiles γ κ → Prop
  | start : Run engine allowed extension w₀ w₀
  | step {w w' : World MemoryFiles γ κ} (h : Run engine allowed extension w₀ w)
      (hstep : engine.Step allowed w₀.files.files extension w w') :
      Run engine allowed extension w₀ w'

variable {engine : Engine MemoryFiles γ κ η} {originals : Catalog StoredFile} {extension : String}
  {allowed : Bool → MemoryFiles → RequestPath → Prop} {w₀ w w' : World MemoryFiles γ κ}

theorem DiskSetting.looks_stat (hs : DiskSetting engine originals extension) (path : String) :
    Looks MemoryFiles.look (engine.files.stat path) fun look => look path :=
  MemoryFiles.looks_stat hs.files path

/-- No request changes the interval of checks. -/
theorem Engine.mask_after (hfiles : engine.files = MemoryFiles.fileSystem)
    (hdisk : engine.backend = .disk) {raw : String} {path : RequestPath}
    (hraw : RequestPath.ofRequest raw = .ok path) (now : Timestamp) :
    (engine.after raw now w).sampler.mask = w.sampler.mask := by
  obtain ⟨_, _, _, _, -, hmask, hrun⟩ :=
    Engine.serves hdisk (MemoryFiles.looks_stat hfiles) hraw { w with files := w.files.atTime now }
  rw [Engine.after, hrun]
  exact hmask

/-- No step changes it. -/
theorem Engine.Step.mask_eq (hs : DiskSetting engine originals extension)
    (hstep : engine.Step allowed originals extension w w') : w'.sampler.mask = w.sampler.mask := by
  cases hstep with
  | edit => rfl
  | request hraw => exact Engine.mask_after hs.files hs.disk hraw _

/-- A careful step keeps the files current. -/
theorem Engine.Step.current (hs : DiskSetting engine originals extension)
    (hstep : engine.Step engine.Careful originals extension w w')
    (h : Current engine.codec originals extension w.files.files) :
    Current engine.codec originals extension w'.files.files := by
  cases hstep with
  | edit hname hclock =>
      refine h.insert_original hs.pristine hname fun other file hget => ?_
      rw [StoredFile.newest_stat]
      exact hclock.modified_lt hget
  | @request raw path now hraw hpath hallowed hclock =>
      obtain ⟨outcome, files, codec, sampler, hserve, -, hrun⟩ :=
        Engine.serves hs.disk hs.looks_stat hraw { w with files := w.files.atTime now }
      rw [Engine.after, hrun]
      exact hserve.current hs h hpath hallowed

theorem Engine.Run.mask_eq (hs : DiskSetting engine w₀.files.files extension)
    (hrun : engine.Run allowed extension w₀ w) : w.sampler.mask = w₀.sampler.mask := by
  induction hrun with
  | start => rfl
  | step _ hstep ih => exact (hstep.mask_eq hs).trans ih

/-- A run of careful steps keeps the files current. -/
theorem Engine.Run.current (hs : DiskSetting engine w₀.files.files extension)
    (hrun : engine.Run engine.Careful extension w₀ w) :
    Current engine.codec w₀.files.files extension w.files.files := by
  induction hrun with
  | start => exact Current.initial hs.pristine
  | step _ hstep ih => exact hstep.current hs ih

/-- With an interval of one, every request is picked. -/
theorem Sampler.next_of_mask_eq_zero {s : Sampler} (h : s.mask = 0) : s.next.1 = true := by
  simp [Sampler.next, h]

/-- With a check at every request, every run is careful. -/
theorem Engine.Run.careful (hs : DiskSetting engine w₀.files.files extension)
    (hmask : w₀.sampler.mask = 0) (hrun : engine.Run allowed extension w₀ w) :
    engine.Run engine.Careful extension w₀ w := by
  induction hrun with
  | start => exact .start
  | @step w w' hbefore hstep ih =>
      refine ih.step ?_
      have hpicked := Sampler.next_of_mask_eq_zero ((hbefore.mask_eq hs).trans hmask)
      cases hstep with
      | edit hname hclock => exact .edit hname hclock
      | request hraw hpath _ hclock => exact .request hraw hpath (Or.inl hpicked) hclock

/-- With a check at every request, whatever was requested and edited before: the answer for a path
that is rooted in an original is derived, by the tokens of the path, from the content that the
original has at that moment. -/
theorem served_bytes_current (hs : DiskSetting engine w₀.files.files extension)
    (hinterval : Sampler.ofInterval? 1 = some w₀.sampler)
    (hrun : engine.Run (fun _ _ _ => True) extension w₀ w) {raw : String} {path : RequestPath}
    {base : String} {tokens : List String} {now : Timestamp} {served : Served}
    (hraw : RequestPath.ofRequest raw = .ok path)
    (hrooted : Rooted w₀.files.files extension path base tokens)
    (hserved : ((engine.serve raw).run.run { w with files := w.files.atTime now }).1
      = .ok served) :
    ∃ original, w.files.files.get? (pathOf path.dir base extension) = some original ∧
      DerivedFrom engine.codec extension original.content tokens served.body := by
  have hmask : w₀.sampler.mask = 0 := by
    rw [← Option.some.inj hinterval]
    decide
  have hcurrent := (hrun.careful hs hmask).current hs
  have hpicked := Sampler.next_of_mask_eq_zero ((hrun.mask_eq hs).trans hmask)
  obtain ⟨original, horiginal⟩ := Option.isSome_iff_exists.1 (hcurrent.present _ hrooted.original)
  refine ⟨original, horiginal, ?_⟩
  obtain ⟨outcome, files, codec, sampler, hserve, -, hrun'⟩ :=
    Engine.serves hs.disk hs.looks_stat hraw { w with files := w.files.atTime now }
  rw [hrun'] at hserved
  obtain rfl := eq_ok_of_mapError hserved
  have hserve' : Serves engine MemoryFiles.look path true (w.files.atTime now) w.codec
      (.ok served) files codec := hpicked ▸ hserve
  exact hserve'.derivedFrom hs hcurrent hrooted horiginal

end Run

/-! ### A photo -/

theorem Sketching.setting (s : Sampler) :
    DiskSetting engine (photo s).files.files "jpg" where
  files := rfl
  disk := rfl
  deterministic := Codec.Sketch.deterministic_codec
  plain := Fallbacks.plain_builtIn
  pristine := by
    have hname : ∀ name, ((photo s).files.files.get? name).isSome → name = "a.jpg" := by
      intro name h
      by_cases hne : name = "a.jpg"
      · exact hne
      · simp [photo, hne] at h
    constructor
    · intro name h
      rw [hname name h]
      decide
    · intro name h
      rw [hname name h]
      decide

/-- A photo is replaced, and the answer for a derivative of it is made from the new one. -/
theorem served_bytes_current_after_edit :
    let w : World MemoryFiles Unit Codec.Sketch.Record :=
      { Sketching.photo ⟨0, 0⟩ with
        files := (Sketching.photo ⟨0, 0⟩).files.insert "a.jpg"
          ⟨.text "B", Sketching.instant 2, Sketching.instant 2⟩ }
    ∃ served, ((Sketching.engine.serve "a_q50.jpg").run.run
          { w with files := w.files.atTime (Sketching.instant 3) }).1 = .ok served ∧
      DerivedFrom Codec.Sketch.codec "jpg" (.text "B") ["q50"] served.body := by
  intro w
  have hraw : RequestPath.ofRequest "a_q50.jpg" = .ok (.single "a_q50.jpg" (by decide)) :=
    RequestPath.ofRequest_single _ _
  have hrun : Sketching.engine.Run (fun _ _ _ => True) "jpg" (Sketching.photo ⟨0, 0⟩) w :=
    .step .start (.edit (by decide) (by decide))
  have hrooted : Rooted (Sketching.photo ⟨0, 0⟩).files.files "jpg"
      (.single "a_q50.jpg" (by decide)) "a" ["q50"] :=
    ⟨by decide, by decide, by decide, by decide⟩
  cases hserved : ((Sketching.engine.serve "a_q50.jpg").run.run
      { w with files := w.files.atTime (Sketching.instant 3) }).1 with
  | error e =>
      have hok : ((Sketching.engine.serve "a_q50.jpg").run.run
          { w with files := w.files.atTime (Sketching.instant 3) }).1.isOk = true := by
        decide +kernel
      simp [hserved, Except.isOk, Except.toBool] at hok
  | ok served =>
      obtain ⟨original, horiginal, hderived⟩ := served_bytes_current (Sketching.setting ⟨0, 0⟩)
        (by decide) hrun hraw hrooted hserved
      have hpath : pathOf (RequestPath.single "a_q50.jpg" (by decide)).dir "a" "jpg" = "a.jpg" := by
        decide
      rw [hpath] at horiginal
      simp only [w, MemoryFiles.insert, Catalog.get?_insert, if_true, Option.some.injEq]
        at horiginal
      subst horiginal
      exact ⟨served, rfl, hderived⟩

end Rendition

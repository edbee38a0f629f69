import Rendition.Codec.Sketch
import Rendition.Files.Unreliable
import Rendition.Proofs.Serving
import Rendition.Proofs.Staleness

/-!
# Rendition.Proofs.Originals

The files that were there first are safe. `RecordedFiles` are files in memory that keep a record of
the calls on them and refuse whichever calls a pattern says, so a sweep or a write can fail at any
point. In every run of requests the originals keep their contents and times, and no call but a read
ever names one (`Intact`): a sweep dooms only files with the name of a derivative, and a path that
is written names no file. A request for an original reads it and does nothing else.
-/

namespace Rendition

open Time

/-! ### Files that refuse calls -/

/-- A call that reads or changes a file, and the error it was refused with. -/
structure FileCall where
  operation : FileOperation
  path : String
  refusal? : Option Error
  deriving DecidableEq

/-- Files in memory with a record of the calls on them, latest first. -/
structure RecordedFiles where
  memory : MemoryFiles
  calls : List FileCall

/-- Which calls are refused, given the calls before. -/
abbrev Refusals := (before : List FileCall) → FileOperation → (path : String) → Option Error

namespace RecordedFiles

variable {α : Type} (refusals : Refusals)

/-- Records a call and makes it on the files in memory, unless it is refused. -/
def attempt (operation : FileOperation) (path : String) (m : FilesM MemoryFiles α) :
    FilesM RecordedFiles α := do
  let s ← get
  let refusal? := refusals s.calls operation path
  let calls := ⟨operation, path, refusal?⟩ :: s.calls
  match refusal? with
  | some e =>
    set { s with calls }
    throw e
  | none =>
    let (outcome, memory) := m.run s.memory
    set ({ memory, calls } : RecordedFiles)
    match outcome with
    | .ok a => pure a
    | .error e => throw e

/-- What is known of an entry. -/
def stat (path : String) : StateM RecordedFiles (Option FileStat) := do
  pure ((← get).memory.files.look path)

/-- The files as a file system. -/
def fileSystem : FileSystem RecordedFiles where
  stat := stat
  read path := attempt refusals .read path (MemoryFiles.read path)
  write path content := attempt refusals .write path (MemoryFiles.write path content)
  remove path := attempt refusals .remove path (MemoryFiles.remove path)

/-- What a look at the files shows. -/
def look (s : RecordedFiles) : String → Option FileStat := s.memory.files.look

/-- The files when the clock shows a time. -/
def atTime (now : Timestamp) (s : RecordedFiles) : RecordedFiles :=
  { s with memory := { s.memory with now } }

theorem looks_stat {files : FileSystem RecordedFiles} (hfiles : files = fileSystem refusals)
    (path : String) : Looks look (files.stat path) fun look => look path := by
  subst hfiles
  exact fun _ => rfl

/-- Every call is recorded; a refused one does nothing else. -/
theorem run_attempt (operation : FileOperation) (path : String) (m : FilesM MemoryFiles α)
    (s : RecordedFiles) :
    (attempt refusals operation path m).run.run s =
      match refusals s.calls operation path with
      | some e => (.error e, ⟨s.memory, ⟨operation, path, some e⟩ :: s.calls⟩)
      | none => ((m.run.run s.memory).1,
          ⟨(m.run.run s.memory).2, ⟨operation, path, none⟩ :: s.calls⟩) := by
  have hget : (get : FilesM RecordedFiles RecordedFiles).run.run s = (.ok s, s) := rfl
  rw [attempt, run_bind, hget]
  simp only
  cases refusals s.calls operation path with
  | some e => rfl
  | none =>
      rcases hm : m.run.run s.memory with ⟨_ | _, t⟩
      · change m.run s.memory = _ at hm
        simp only [hm]
        rfl
      · change m.run s.memory = _ at hm
        simp only [hm]
        rfl

/-- Reading a file that is there yields its content, unless it is refused. -/
theorem run_read {path : String} {s : RecordedFiles} {file : StoredFile}
    (hget : s.memory.files.get? path = some file) :
    ((fileSystem refusals).read path).run.run s =
      ((match refusals s.calls .read path with
        | some e => .error e
        | none => .ok file.content),
      ⟨s.memory, ⟨.read, path, refusals s.calls .read path⟩ :: s.calls⟩) := by
  change (attempt refusals .read path (MemoryFiles.read path)).run.run s = _
  rw [run_attempt, MemoryFiles.run_read, hget]
  cases refusals s.calls .read path <;> rfl

end RecordedFiles

/-! ### What stays as it was -/

/-- The files that were there first have the contents and times they had, and of the calls so far
only reads name one. -/
structure Intact (originals : Catalog StoredFile) (s : RecordedFiles) : Prop where
  kept : ∀ name file, originals.get? name = some file → s.memory.files.get? name = some file
  untouched : ∀ call ∈ s.calls, call.operation ≠ .read → originals.get? call.path = none

namespace Intact

open RecordedFiles

variable {originals : Catalog StoredFile} {refusals : Refusals} {s t : RecordedFiles}

/-- A call leaves everything intact if it is a read or names none of the files, and leaves them
alone when it is not refused. -/
theorem attempt {α : Type} {operation : FileOperation} {path : String} {m : FilesM MemoryFiles α}
    {outcome : Except Error α} (h : Intact originals s)
    (hpath : operation ≠ .read → originals.get? path = none)
    (hkept : ∀ name, (originals.get? name).isSome →
      (m.run.run s.memory).2.files.get? name = s.memory.files.get? name)
    (hrun : (RecordedFiles.attempt refusals operation path m).run.run s = (outcome, t)) :
    Intact originals t := by
  rw [run_attempt] at hrun
  have hcalls : ∀ refusal? : Option Error, ∀ call ∈ FileCall.mk operation path refusal? :: s.calls,
      call.operation ≠ .read → originals.get? call.path = none := by
    intro refusal? call hcall
    rcases List.mem_cons.1 hcall with rfl | hcall
    · exact hpath
    · exact h.untouched call hcall
  cases hrefusal : refusals s.calls operation path with
  | some e =>
      rw [hrefusal] at hrun
      obtain ⟨-, rfl⟩ := Prod.mk.inj hrun
      exact ⟨h.kept, hcalls _⟩
  | none =>
      rw [hrefusal] at hrun
      obtain ⟨-, rfl⟩ := Prod.mk.inj hrun
      refine ⟨fun name file hname => ?_, hcalls _⟩
      rw [hkept name (Option.isSome_of_eq_some hname)]
      exact h.kept name file hname

theorem read {path : String} {outcome : Except Error Content} (h : Intact originals s)
    (hrun : ((fileSystem refusals).read path).run.run s = (outcome, t)) : Intact originals t := by
  change (RecordedFiles.attempt refusals .read path (MemoryFiles.read path)).run.run s = _ at hrun
  refine h.attempt (fun hne => absurd rfl hne) (fun name _ => ?_) hrun
  rw [MemoryFiles.run_read]

theorem write {path : String} {content : Content} {outcome : Except Error Unit}
    (h : Intact originals s) (hpath : originals.get? path = none)
    (hrun : ((fileSystem refusals).write path content).run.run s = (outcome, t)) :
    Intact originals t := by
  change (RecordedFiles.attempt refusals .write path (MemoryFiles.write path content)).run.run s = _
    at hrun
  refine h.attempt (fun _ => hpath) (fun name hname => ?_) hrun
  have hne : name ≠ path := by
    rintro rfl
    simp [hpath] at hname
  simp [MemoryFiles.run_write, MemoryFiles.insert, hne]

theorem remove {path : String} {outcome : Except Error Bool} (h : Intact originals s)
    (hpath : originals.get? path = none)
    (hrun : ((fileSystem refusals).remove path).run.run s = (outcome, t)) :
    Intact originals t := by
  change (RecordedFiles.attempt refusals .remove path (MemoryFiles.remove path)).run.run s = _
    at hrun
  refine h.attempt (fun _ => hpath) (fun name hname => ?_) hrun
  have hne : name ≠ path := by
    rintro rfl
    simp [hpath] at hname
  simp [MemoryFiles.run_remove, hne]

/-- Whatever is removed of some files that are none of the originals. -/
theorem removeAll {paths : List String} {outcome : Except Error Unit} (h : Intact originals s)
    (hpaths : ∀ path ∈ paths, originals.get? path = none)
    (hrun : (Rendition.removeAll (fileSystem refusals) paths).run.run s = (outcome, t)) :
    Intact originals t := by
  induction paths generalizing s with
  | nil =>
      obtain ⟨-, rfl⟩ := Prod.mk.inj hrun
      exact h
  | cons path rest ih =>
      have hbind := run_bind ((fileSystem refusals).remove path)
        (fun _ => Rendition.removeAll (fileSystem refusals) rest) s
      rcases hremove : ((fileSystem refusals).remove path).run.run s with ⟨e | there, u⟩
      · have hu := h.remove (hpaths path List.mem_cons_self) hremove
        rw [hremove] at hbind
        obtain ⟨-, rfl⟩ := Prod.mk.inj (hrun.symm.trans hbind)
        exact hu
      · have hu := h.remove (hpaths path List.mem_cons_self) hremove
        rw [hremove] at hbind
        exact ih hu (fun p hp => hpaths p (List.mem_cons_of_mem _ hp)) (hbind.symm.trans hrun)

end Intact

/-! ### A request leaves the originals intact -/

section Serving

variable {γ κ η : Type} {engine : Engine RecordedFiles γ κ η} {refusals : Refusals}
  {originals : Catalog StoredFile} {path : RequestPath} {s t u : RecordedFiles} {k l : κ}
  {picked : Bool}

/-- What a sweep removes are no originals, so they outlast the choice of a resolution. -/
theorem Settles.intact {fallbacks : Fallbacks} {outcome : Except Error Resolution}
    (hplain : fallbacks.Plain)
    (horiginals : ∀ name, (originals.get? name).isSome → namesDerivative name = false)
    (hsettle : Settles (RecordedFiles.fileSystem refusals) RecordedFiles.look fallbacks path picked
      s outcome t) (h : Intact originals s) : Intact originals t := by
  have hdoomed : ∀ {onDisk : RequestPath} {doomed : List String},
      stalenessIn s.look fallbacks onDisk = .stale doomed →
      ∀ name ∈ doomed, originals.get? name = none := by
    intro onDisk doomed hstale name hname
    have hderivative := namesDerivative_of_mem_doomed hplain hstale hname
    rw [← Option.not_isSome_iff_eq_none]
    intro hsome
    simp [horiginals name hsome] at hderivative
  cases hsettle with
  | unresolved | unpicked | misnamed | fresh => exact h
  | swept _ _ hstale hremove => exact h.removeAll (hdoomed hstale) hremove
  | interrupted _ _ hstale hremove => exact h.removeAll (hdoomed hstale) hremove

/-- A path that is answered by a derivative is no original. -/
theorem Settles.not_original {fallbacks : Fallbacks} {source : FoundFile} {chain : Chain}
    {extension : String}
    (hsettle : Settles (RecordedFiles.fileSystem refusals) RecordedFiles.look fallbacks path picked
      s (.ok (.derived source chain extension)) t)
    (h : Intact originals s) (h' : Intact originals t) : originals.get? path.text = none := by
  have hderived : ∀ {v : RecordedFiles}, Intact originals v →
      resolveIn v.look fallbacks path = .ok (.derived source chain extension) →
      originals.get? path.text = none := by
    intro v hv hresolve
    have hnone := Catalog.fileAt_look_eq_none.1 (resolveIn_eq_derived.1 hresolve).1
    cases hget : originals.get? path.text with
    | none => rfl
    | some file => simp [hv.kept _ _ hget] at hnone
  rcases hsettle.ok_inv with ⟨hresolve, -, -⟩ | ⟨first, onDisk, doomed, -, hfirst, -, -, hswept⟩
  · exact hderived h hresolve
  · rcases hswept with ⟨-, hresolve⟩ | ⟨e, -, rfl⟩
    · exact hderived h' hresolve
    · exact hderived h hfirst

/-- Serving a path leaves the originals intact, whatever fails. -/
theorem Serves.intact {outcome : Except Error Served}
    (hfiles : engine.files = RecordedFiles.fileSystem refusals) (hplain : engine.fallbacks.Plain)
    (horiginals : ∀ name, (originals.get? name).isSome → namesDerivative name = false)
    (hserve : Serves engine RecordedFiles.look path picked s k outcome u l)
    (h : Intact originals s) : Intact originals u := by
  cases hserve with
  | unsettled hsettle => exact (hfiles ▸ hsettle).intact hplain horiginals h
  | answered hsettle hanswer =>
      rw [hfiles] at hsettle
      have ht := hsettle.intact hplain horiginals h
      cases hanswer with
      | unread hread => exact ht.read (hfiles ▸ hread)
      | file hread => exact ht.read (hfiles ▸ hread)
      | undone hread => exact ht.read (hfiles ▸ hread)
      | made hread hexecute hkeep =>
          have hread' := ht.read (hfiles ▸ hread)
          cases hkeep with
          | bare => exact hread'
          | written hchain hwrite =>
              exact hread'.write (hsettle.not_original h ht) (hfiles ▸ hwrite)

/-- A request for a file that names no derivative settles on that file at once. -/
theorem Settles.direct {φ : Type} {files : FileSystem φ} {lookIn : φ → String → Option FileStat}
    {fallbacks : Fallbacks} {s t : φ} {outcome : Except Error Resolution} {found : FoundFile}
    (hfile : fileAt (lookIn s) path.text = some found)
    (hname : namesDerivative path.text = false)
    (hsettle : Settles files lookIn fallbacks path picked s outcome t) :
    outcome = .ok (.direct found) ∧ t = s := by
  rcases hsettle.of_direct hfile with ⟨houtcome, ht, -⟩ | ⟨doomed, hstale, -⟩
  · exact ⟨houtcome, ht⟩
  · obtain ⟨stem, extension, hsplit, cut, hcut⟩ := exists_generatedCut_of_stale hstale
    simp [namesDerivative_of_cut hsplit hcut] at hname

/-- Serving a file that names no derivative makes one read of it and nothing else. Unless the read
is refused, the answer is the content of the file. -/
theorem Serves.direct {original : StoredFile} {outcome : Except Error Served}
    (hfiles : engine.files = RecordedFiles.fileSystem refusals)
    (hget : s.memory.files.get? path.text = some original)
    (hname : namesDerivative path.text = false)
    (hserve : Serves engine RecordedFiles.look path picked s k outcome u l) :
    l = k ∧ u = ⟨s.memory, ⟨.read, path.text, refusals s.calls .read path.text⟩ :: s.calls⟩ ∧
      match refusals s.calls .read path.text with
      | some e => outcome = .error e
      | none => ∃ served, outcome = .ok served ∧ served.body = original.content ∧
          served.origin = .file := by
  have hfile : fileAt (RecordedFiles.look s) path.text = some ⟨path.text, original.stat⟩ :=
    Catalog.fileAt_look.2 ⟨original, hget, rfl⟩
  have hrunRead := RecordedFiles.run_read refusals hget
  rw [← hfiles] at hrunRead
  cases hserve with
  | unsettled hsettle => cases (hsettle.direct hfile hname).1
  | answered hsettle hanswer =>
      obtain ⟨hr, rfl⟩ := hsettle.direct hfile hname
      obtain rfl := Except.ok.inj hr
      cases hanswer with
      | unread hread =>
          obtain ⟨hfail, rfl⟩ := Prod.mk.inj (hrunRead.symm.trans hread)
          refine ⟨rfl, rfl, ?_⟩
          split
          · next e hrefusal =>
              rw [hrefusal] at hfail
              exact congrArg Except.error (Except.error.inj hfail).symm
          · next hrefusal => simp [hrefusal] at hfail
      | file hread =>
          obtain ⟨hok, rfl⟩ := Prod.mk.inj (hrunRead.symm.trans hread)
          refine ⟨rfl, rfl, ?_⟩
          split
          · next e hrefusal => simp [hrefusal] at hok
          · next hrefusal =>
              rw [hrefusal] at hok
              exact ⟨_, rfl, (Except.ok.inj hok).symm, rfl⟩

end Serving

/-! ### Runs of requests -/

/-- The worlds that requests lead to, one after the other, whatever they ask for and whatever the
clock shows at each. -/
inductive Engine.Requests {γ κ η : Type} (engine : Engine RecordedFiles γ κ η)
    (w₀ : World RecordedFiles γ κ) : World RecordedFiles γ κ → Prop
  | none : Requests engine w₀ w₀
  | serve {w : World RecordedFiles γ κ} (raw : String) (now : Timestamp)
      (h : Requests engine w₀ w) :
      Requests engine w₀ ((engine.serve raw).run.run { w with files := w.files.atTime now }).2

section Runs

variable {γ κ η : Type} {engine : Engine RecordedFiles γ κ η} {refusals : Refusals}

theorem Intact.atTime {originals : Catalog StoredFile} {s : RecordedFiles}
    (h : Intact originals s) (now : Timestamp) : Intact originals (s.atTime now) :=
  ⟨h.kept, h.untouched⟩

theorem Intact.serve {originals : Catalog StoredFile}
    (hfiles : engine.files = RecordedFiles.fileSystem refusals) (hdisk : engine.backend = .disk)
    (hplain : engine.fallbacks.Plain)
    (horiginals : ∀ name, (originals.get? name).isSome → namesDerivative name = false)
    {w : World RecordedFiles γ κ} (h : Intact originals w.files) (raw : String) :
    Intact originals ((engine.serve raw).run.run w).2.files := by
  cases hraw : RequestPath.ofRequest raw with
  | error e =>
      rw [Engine.run_serve_unnamed hraw]
      exact h
  | ok path =>
      obtain ⟨outcome, files, codec, sampler, hserve, -, hrun⟩ :=
        Engine.serves hdisk (RecordedFiles.looks_stat refusals hfiles) hraw w
      rw [hrun]
      exact hserve.intact hfiles hplain horiginals h

theorem Engine.Requests.intact {w₀ w : World RecordedFiles γ κ}
    (hfiles : engine.files = RecordedFiles.fileSystem refusals) (hdisk : engine.backend = .disk)
    (hplain : engine.fallbacks.Plain)
    (horiginals : ∀ name, (w₀.files.memory.files.get? name).isSome → namesDerivative name = false)
    (hcalls : w₀.files.calls = []) (hrun : engine.Requests w₀ w) :
    Intact w₀.files.memory.files w.files := by
  induction hrun with
  | none => exact ⟨fun _ _ h => h, by simp [hcalls]⟩
  | serve raw now _ ih => exact (ih.atTime now).serve hfiles hdisk hplain horiginals raw

/-- In every run of requests, whatever calls are refused, the files that were there first keep their
contents and times, no call but a read names one, and a request for one makes that read and nothing
else: unless it is refused, the answer is the content of the file, and the codec is not used. -/
theorem originals_safe (hfiles : engine.files = RecordedFiles.fileSystem refusals)
    (hdisk : engine.backend = .disk) (hplain : engine.fallbacks.Plain)
    {w₀ w : World RecordedFiles γ κ}
    (horiginals : ∀ name, (w₀.files.memory.files.get? name).isSome → namesDerivative name = false)
    (hcalls : w₀.files.calls = []) (hrun : engine.Requests w₀ w) {name : String}
    {original : StoredFile} (hname : w₀.files.memory.files.get? name = some original) :
    w.files.memory.files.get? name = some original ∧
      (∀ call ∈ w.files.calls, call.path = name → call.operation = .read) ∧
      ∀ (raw : String) (path : RequestPath) (now : Timestamp),
        RequestPath.ofRequest raw = .ok path → path.text = name →
        let (outcome, after) :=
          (engine.serve raw).run.run { w with files := w.files.atTime now }
        let refusal? := refusals w.files.calls .read name
        after.codec = w.codec ∧
          after.files = ⟨{ w.files.memory with now }, ⟨.read, name, refusal?⟩ :: w.files.calls⟩ ∧
          match refusal? with
          | some e => outcome = .error (.failed e)
          | none => ∃ served, outcome = .ok served ∧ served.body = original.content ∧
              served.origin = .file := by
  have hintact := hrun.intact hfiles hdisk hplain horiginals hcalls
  have hget := hintact.kept name original hname
  refine ⟨hget, fun call hcall hcallName => ?_, ?_⟩
  · by_cases hread : call.operation = .read
    · exact hread
    · have hnone := hintact.untouched call hcall hread
      rw [hcallName, hname] at hnone
      cases hnone
  · rintro raw path now hraw rfl
    obtain ⟨outcome, files, codec, sampler, hserve, -, hserved⟩ :=
      Engine.serves hdisk (RecordedFiles.looks_stat refusals hfiles) hraw
        { w with files := w.files.atTime now }
    rw [hserved]
    obtain ⟨rfl, rfl, houtcome⟩ :=
      hserve.direct (s := w.files.atTime now) hfiles hget (horiginals path.text (by simp [hname]))
    refine ⟨rfl, rfl, ?_⟩
    have hcallsBefore : (w.files.atTime now).calls = w.files.calls := rfl
    rw [hcallsBefore] at houtcome
    cases hrefusal : refusals w.files.calls .read path.text with
    | some e =>
        rw [hrefusal] at houtcome
        rw [houtcome]
        rfl
    | none =>
        rw [hrefusal] at houtcome
        obtain ⟨served, rfl, hbody, horigin⟩ := houtcome
        exact ⟨served, rfl, hbody, horigin⟩

/-- A derivative is made of a photo while every write is refused, and the photo is as it was. -/
theorem originals_safe_refused_write :
    let refusals : Refusals := fun _ operation _ =>
      if operation = .write then some (.other "disk full") else none
    let engine : Engine RecordedFiles Unit Codec.Sketch.Record ByteArray :=
      ⟨RecordedFiles.fileSystem refusals, Codec.Sketch.codec, .builtIn, .disk⟩
    let photo : StoredFile := ⟨.text "photo", .epoch, .epoch⟩
    let w₀ : World RecordedFiles Unit Codec.Sketch.Record :=
      ⟨⟨⟨Catalog.empty.insert "a.jpg" photo, .epoch⟩, []⟩, (), #[], ⟨1, 0⟩⟩
    let w := ((engine.serve "a_q50.jpg").run.run
      { w₀ with files := w₀.files.atTime .epoch }).2
    w.files.memory.files.get? "a.jpg" = some photo ∧
      ∀ call ∈ w.files.calls, call.path = "a.jpg" → call.operation = .read := by
  intro refusals engine photo w₀ w
  have hphoto : ∀ name, (w₀.files.memory.files.get? name).isSome →
      namesDerivative name = false := by
    intro name hname
    have heq : name = "a.jpg" := by
      by_cases hne : name = "a.jpg"
      · exact hne
      · simp [w₀, hne] at hname
    rw [heq]
    decide
  have hrun : engine.Requests w₀ w := .serve "a_q50.jpg" .epoch .none
  obtain ⟨hkept, hcalls, -⟩ := originals_safe rfl rfl Fallbacks.plain_builtIn hphoto rfl hrun
    (show w₀.files.memory.files.get? "a.jpg" = some photo by simp [w₀])
  exact ⟨hkept, hcalls⟩

end Runs

end Rendition

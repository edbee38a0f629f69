import Rendition.Proofs.Originals
import Rendition.Proofs.Sweeping

/-!
# Rendition.Proofs.Interruption

Sweeps that fail on the way. A sweep removes the doomed files in order, the stale file itself first,
and ends at the first removal that is refused (`run_removeAll_error`). The request goes on with the
resolution that it had before. So the answer is what it would have been without the check as long as
the file of that resolution is still there; if the sweep had removed it, the request fails
(`interrupted_sweep_outcome`). With plain extensions that file is the first one to go: then only a
sweep that removed nothing is without consequence.
-/

namespace Rendition

open Time

/-! ### Files that refuse removals only -/

/-- No read and no write is refused. -/
def Refusals.RemovalsOnly (refusals : Refusals) : Prop :=
  ∀ before operation path e, refusals before operation path = some e → operation = .remove

namespace RecordedFiles

variable {refusals : Refusals} {s t : RecordedFiles} {path : String}

/-- The files without some of them, when the removals of these, one after the other, were
recorded. -/
def removing (gone : List String) (s : RecordedFiles) : RecordedFiles where
  memory := { s.memory with files := s.memory.files.without gone }
  calls := (gone.map (⟨.remove, ·, none⟩)).reverse ++ s.calls

theorem removing_cons (first : String) (rest : List String) (s : RecordedFiles) :
    s.removing (first :: rest) = RecordedFiles.removing rest
      ⟨{ s.memory with files := s.memory.files.erase first }, ⟨.remove, first, none⟩ :: s.calls⟩ := by
  simp [removing, Catalog.without]

/-- Removals go through up to the first that is refused. -/
theorem run_removeAll_cases {paths : List String} {outcome : Except Error Unit}
    (h : (removeAll (fileSystem refusals) paths).run.run s = (outcome, t)) :
    outcome = .ok () ∧ t = s.removing paths ∨
      ∃ gone refused rest e, paths = gone ++ refused :: rest ∧ outcome = .error e ∧
        t = ⟨(s.removing gone).memory, ⟨.remove, refused, some e⟩ :: (s.removing gone).calls⟩ := by
  induction paths generalizing s with
  | nil =>
      obtain ⟨houtcome, rfl⟩ := Prod.mk.inj h
      exact Or.inl ⟨houtcome.symm, rfl⟩
  | cons first rest ih =>
      have hbind := run_bind ((fileSystem refusals).remove first)
        (fun _ => removeAll (fileSystem refusals) rest) s
      have hremove := run_attempt refusals .remove first (MemoryFiles.remove first) s
      change ((fileSystem refusals).remove first).run.run s = _ at hremove
      rw [hremove] at hbind
      cases hrefusal : refusals s.calls .remove first with
      | some e =>
          rw [hrefusal] at hbind
          obtain ⟨houtcome, rfl⟩ := Prod.mk.inj (hbind.symm.trans h)
          exact Or.inr ⟨[], first, rest, e, rfl, houtcome.symm, rfl⟩
      | none =>
          rw [hrefusal] at hbind
          simp only [MemoryFiles.run_remove] at hbind
          rcases ih (hbind.symm.trans h) with
            ⟨houtcome, rfl⟩ | ⟨gone, refused, behind, e, rfl, houtcome, rfl⟩
          · exact Or.inl ⟨houtcome, (removing_cons first rest s).symm⟩
          · exact Or.inr ⟨first :: gone, refused, behind, e, rfl, houtcome, by rw [removing_cons]⟩

theorem run_removeAll_error {paths : List String} {e : Error}
    (h : (removeAll (fileSystem refusals) paths).run.run s = (.error e, t)) :
    ∃ gone refused rest, paths = gone ++ refused :: rest ∧
      t.memory = { s.memory with files := s.memory.files.without gone } := by
  rcases run_removeAll_cases h with ⟨houtcome, -⟩ | ⟨gone, refused, rest, -, hpaths, -, rfl⟩
  · cases houtcome
  · exact ⟨gone, refused, rest, hpaths, rfl⟩

variable (hremovals : refusals.RemovalsOnly)

include hremovals

theorem not_refused {before : List FileCall} {operation : FileOperation}
    (h : operation ≠ .remove) : refusals before operation path = none := by
  cases hrefusal : refusals before operation path with
  | none => rfl
  | some e => exact absurd (hremovals _ _ _ _ hrefusal) h

theorem run_read_of_some {file : StoredFile} (hget : s.memory.files.get? path = some file) :
    ((fileSystem refusals).read path).run.run s
      = (.ok file.content, ⟨s.memory, ⟨.read, path, none⟩ :: s.calls⟩) := by
  change (attempt refusals .read path (MemoryFiles.read path)).run.run s = _
  rw [run_attempt, not_refused hremovals (by decide)]
  simp [MemoryFiles.run_read, hget]

theorem run_read_of_none (hget : s.memory.files.get? path = none) :
    ((fileSystem refusals).read path).run.run s
      = (.error (.notFound ("'" ++ path ++ "' does not exist")),
        ⟨s.memory, ⟨.read, path, none⟩ :: s.calls⟩) := by
  change (attempt refusals .read path (MemoryFiles.read path)).run.run s = _
  rw [run_attempt, not_refused hremovals (by decide)]
  simp [MemoryFiles.run_read, hget]

theorem run_write_unrefused (s : RecordedFiles) (path : String) (content : Content) :
    ((fileSystem refusals).write path content).run.run s
      = (.ok (), ⟨s.memory.insert path ⟨content, s.memory.now, s.memory.now⟩,
        ⟨.write, path, none⟩ :: s.calls⟩) := by
  change (attempt refusals .write path (MemoryFiles.write path content)).run.run s = _
  rw [run_attempt, not_refused hremovals (by decide), MemoryFiles.run_write]

end RecordedFiles

/-! ### Answers from a file that is there, and from one that is not -/

section Answering

variable {γ κ η : Type} {engine : Engine RecordedFiles γ κ η} {refusals : Refusals}
  {path : RequestPath} {r : Resolution} {s u : RecordedFiles} {k l : κ}
  {outcome : Except Error Served}

/-- What a resolution comes to once its file was read, and what is then in memory. -/
inductive Comes (engine : Engine RecordedFiles γ κ η) (path : RequestPath) (content : Content)
    (k : κ) (before : MemoryFiles) : Resolution → Except Error Served → Prop
  | file {found : FoundFile} :
      Comes engine path content k before (.direct found)
        (.ok (Engine.served path content
          (some (sourceModified before.look engine.fallbacks found)) .file))
  | undone {source : FoundFile} {chain : Chain} {ext : String} {e : Error} {l : κ}
      (hexecute : (engine.codec.execute content chain ext).run.run k = (.error e, l)) :
      Comes engine path content k before (.derived source chain ext) (.error e)
  | made {source : FoundFile} {chain : Chain} {ext : String} {execution : Execution} {l : κ}
      {after : MemoryFiles}
      (hexecute : (engine.codec.execute content chain ext).run.run k = (.ok execution, l))
      (hafter : after = if chain.isEmpty then before
        else before.insert path.text ⟨execution.result, before.now, before.now⟩) :
      Comes engine path content k before (.derived source chain ext)
        (.ok (Engine.served path execution.result
          (some (sourceModified after.look engine.fallbacks source)) .derived))

variable (hfiles : engine.files = RecordedFiles.fileSystem refusals)
  (hremovals : refusals.RemovalsOnly)

include hfiles hremovals

/-- Answering a resolution whose file is there. -/
theorem Answers.comes {file : StoredFile} (hget : s.memory.files.get? r.file.path = some file)
    (hanswer : Answers engine RecordedFiles.look path r s k outcome u l) :
    Comes engine path file.content k s.memory r outcome := by
  have hrunRead : ∀ name, s.memory.files.get? name = some file →
      (engine.files.read name).run.run s
        = (.ok file.content, ⟨s.memory, ⟨.read, name, none⟩ :: s.calls⟩) :=
    fun _ hname => hfiles ▸ RecordedFiles.run_read_of_some hremovals hname
  cases hanswer with
  | unread hread => cases (Prod.mk.inj ((hrunRead _ hget).symm.trans hread)).1
  | file hread =>
      obtain ⟨hbody, rfl⟩ := Prod.mk.inj ((hrunRead _ hget).symm.trans hread)
      obtain rfl := Except.ok.inj hbody
      exact .file
  | undone hread hexecute =>
      obtain ⟨hbody, -⟩ := Prod.mk.inj ((hrunRead _ hget).symm.trans hread)
      obtain rfl := Except.ok.inj hbody
      exact .undone hexecute
  | made hread hexecute hkeep =>
      obtain ⟨hbody, rfl⟩ := Prod.mk.inj ((hrunRead _ hget).symm.trans hread)
      obtain rfl := Except.ok.inj hbody
      refine .made hexecute ?_
      cases hkeep with
      | bare hchain => rw [if_pos hchain]
      | written hchain hwrite =>
          rw [hfiles, RecordedFiles.run_write_unrefused hremovals] at hwrite
          obtain ⟨-, rfl⟩ := Prod.mk.inj hwrite
          rw [hchain]
          rfl

/-- Answering a resolution whose file is gone. -/
theorem Answers.eq_of_gone (hget : s.memory.files.get? r.file.path = none)
    (hanswer : Answers engine RecordedFiles.look path r s k outcome u l) :
    outcome = .error (.notFound ("'" ++ r.file.path ++ "' does not exist")) := by
  have hrunRead : ∀ name, s.memory.files.get? name = none →
      (engine.files.read name).run.run s
        = (.error (.notFound ("'" ++ name ++ "' does not exist")),
          ⟨s.memory, ⟨.read, name, none⟩ :: s.calls⟩) :=
    fun _ hname => hfiles ▸ RecordedFiles.run_read_of_none hremovals hname
  cases hanswer with
  | unread hread =>
      exact congrArg _ (Except.error.inj (Prod.mk.inj ((hrunRead _ hget).symm.trans hread)).1).symm
  | file hread | undone hread | made hread =>
      cases (Prod.mk.inj ((hrunRead _ hget).symm.trans hread)).1

end Answering

/-- The answer that comes of a content differs with the rest of what is in memory in one thing at
most: when the true source was modified. -/
theorem Comes.congr {γ κ η : Type} {engine : Engine RecordedFiles γ κ η} {path : RequestPath}
    {content : Content} {k : κ} {before before' : MemoryFiles} {r : Resolution}
    {outcome : Except Error Served} {served : Served}
    (h : Comes engine path content k before r (.ok served))
    (h' : Comes engine path content k before' r outcome) :
    ∃ again, outcome = .ok again ∧ again.body = served.body ∧
      again.contentType = served.contentType ∧ again.origin = served.origin ∧
      (before' = before → again = served) := by
  generalize hok : (Except.ok served : Except Error Served) = first at h
  cases h with
  | undone => cases hok
  | file =>
      obtain rfl := Except.ok.inj hok
      cases h' with
      | file =>
          refine ⟨_, rfl, ?_, ?_, ?_, fun heq => by rw [heq]⟩
          all_goals simp only [Engine.served]
  | made hexecute hafter =>
      obtain rfl := Except.ok.inj hok
      cases h' with
      | undone hexecute' => cases (Prod.mk.inj (hexecute.symm.trans hexecute')).1
      | made hexecute' hafter' =>
          obtain rfl := Except.ok.inj (Prod.mk.inj (hexecute.symm.trans hexecute')).1
          refine ⟨_, rfl, ?_, ?_, ?_, fun heq => by rw [hafter, hafter', heq]⟩
          all_goals simp only [Engine.served]

/-! ### Requests whose sweep fails -/

section Serving

variable {γ κ η : Type} {engine : Engine RecordedFiles γ κ η} {refusals : Refusals}
  {path onDisk : RequestPath} {r : Resolution}

section Sweep

variable {φ : Type} {files : FileSystem φ} {lookIn : φ → String → Option FileStat}
  {fallbacks : Fallbacks} {s t t' : φ} {e : Error}
  (hstat : ∀ path, Looks lookIn (files.stat path) fun look => look path)

include hstat

/-- A sweep that fails found a stale file, and a removal of a doomed one failed. -/
theorem exists_doomed_of_error
    (hsweep : (sweep files fallbacks onDisk).run.run s = (.error e, t)) :
    ∃ doomed, stalenessIn (lookIn s) fallbacks onDisk = .stale doomed ∧
      (removeAll files doomed).run.run s = (.error e, t) := by
  rw [run_sweep hstat] at hsweep
  cases hstale : stalenessIn (lookIn s) fallbacks onDisk with
  | fresh =>
      rw [hstale] at hsweep
      cases (Prod.mk.inj hsweep).1
  | stale doomed =>
      rw [hstale] at hsweep
      refine ⟨doomed, rfl, ?_⟩
      rcases hremove : (removeAll files doomed).run.run s with ⟨e' | _, t'⟩
      · simp only [hremove] at hsweep
        obtain ⟨he, rfl⟩ := Prod.mk.inj hsweep
        rw [Except.error.inj he]
      · simp only [hremove] at hsweep
        cases (Prod.mk.inj hsweep).1

/-- The resolution of a request outlasts a sweep that fails. -/
theorem Settles.of_interrupted {outcome : Except Error Resolution}
    (hresolve : resolveIn (lookIn s) fallbacks path = .ok r)
    (hpath : RequestPath.ofRequest r.file.path = .ok onDisk)
    (hsweep : (sweep files fallbacks onDisk).run.run s = (.error e, t))
    (hsettle : Settles files lookIn fallbacks path true s outcome t') :
    outcome = .ok r ∧ t' = t := by
  obtain ⟨doomed, hstale, hremove⟩ := exists_doomed_of_error hstat hsweep
  have honDisk : ∀ {r' : Resolution} {onDisk' : RequestPath},
      resolveIn (lookIn s) fallbacks path = .ok r' →
      RequestPath.ofRequest r'.file.path = .ok onDisk' → r' = r ∧ onDisk' = onDisk := by
    intro r' onDisk' hresolve' hpath'
    obtain rfl := Except.ok.inj (hresolve.symm.trans hresolve')
    exact ⟨rfl, Except.ok.inj (hpath'.symm.trans hpath)⟩
  cases hsettle with
  | unresolved hresolve' => cases hresolve.symm.trans hresolve'
  | misnamed hresolve' hpath' =>
      obtain rfl := Except.ok.inj (hresolve.symm.trans hresolve')
      cases hpath.symm.trans hpath'
  | fresh hresolve' hpath' hfresh =>
      obtain ⟨rfl, rfl⟩ := honDisk hresolve' hpath'
      cases hfresh.symm.trans hstale
  | swept hresolve' hpath' hstale' hremove' =>
      obtain ⟨rfl, rfl⟩ := honDisk hresolve' hpath'
      obtain rfl := Staleness.stale.inj (hstale.symm.trans hstale')
      cases (Prod.mk.inj (hremove.symm.trans hremove')).1
  | interrupted hresolve' hpath' hstale' hremove' =>
      obtain ⟨rfl, rfl⟩ := honDisk hresolve' hpath'
      obtain rfl := Staleness.stale.inj (hstale.symm.trans hstale')
      exact ⟨rfl, (Prod.mk.inj (hremove'.symm.trans hremove)).2⟩

end Sweep

/-- With plain extensions the file that a request starts at has the path of a request. -/
theorem text_eq_of_resolveIn {look : String → Option FileStat} {fallbacks : Fallbacks}
    (hplain : fallbacks.Plain) (hresolve : resolveIn look fallbacks path = .ok r)
    (hpath : RequestPath.ofRequest r.file.path = .ok onDisk) : onDisk.text = r.file.path := by
  cases hsplit : splitExtension path.fileName with
  | some parts =>
      obtain ⟨stem, ext⟩ := parts
      obtain ⟨start, cut, c, hstart⟩ := exists_start hplain hsplit hresolve
      obtain rfl := Except.ok.inj (hpath.symm.trans hstart.ofRequest)
      exact hstart.text
  | none =>
      cases r with
      | direct found =>
          have hfile := (fileAt_eq_some.1 (resolveIn_eq_direct.1 hresolve)).1
          rw [Resolution.file, hfile, path.ofRequest_text] at hpath
          obtain rfl := Except.ok.inj hpath
          exact hfile.symm
      | derived source chain ext =>
          obtain ⟨-, stem, hsplit', -⟩ := resolveIn_eq_derived.1 hresolve
          cases hsplit.symm.trans hsplit'

/-- A request that would be answered without a check is picked for one, and the sweep of its file
fails after it removed some files. If the file of the resolution is not among these, the answer is
the same, with another time of the source at most. If it is, the request fails. With plain
extensions it is, unless nothing was removed. -/
theorem interrupted_sweep_outcome (hfiles : engine.files = RecordedFiles.fileSystem refusals)
    (hdisk : engine.backend = .disk) (hremovals : refusals.RemovalsOnly) {raw : String}
    (hraw : RequestPath.ofRequest raw = .ok path) {w : World RecordedFiles γ κ}
    {unpicked : Sampler} (hunpicked : unpicked.next.1 = false) {served : Served}
    (hserved : ((engine.serve raw).run.run { w with sampler := unpicked }).1 = .ok served)
    (hpicked : w.sampler.next.1 = true)
    (hresolve : resolveIn w.files.look engine.fallbacks path = .ok r)
    (hpath : RequestPath.ofRequest r.file.path = .ok onDisk) {e : Error} {t : RecordedFiles}
    (hsweep : (sweep engine.files engine.fallbacks onDisk).run.run w.files = (.error e, t)) :
    ∃ gone refused rest,
      stalenessIn w.files.look engine.fallbacks onDisk = .stale (gone ++ refused :: rest) ∧
      t.memory = { w.files.memory with files := w.files.memory.files.without gone } ∧
      let outcome := ((engine.serve raw).run.run w).1
      (r.file.path ∉ gone → ∃ again, outcome = .ok again ∧ again.body = served.body ∧
        again.contentType = served.contentType ∧ again.origin = served.origin) ∧
      (r.file.path ∈ gone → outcome
        = .error (.failed (.notFound ("'" ++ r.file.path ++ "' does not exist")))) ∧
      (gone = [] → outcome = .ok served) ∧
      (engine.fallbacks.Plain → gone ≠ [] → r.file.path ∈ gone) := by
  have hstat := RecordedFiles.looks_stat refusals hfiles
  -- Both requests settle on the resolution, one with all files and one with those that are left.
  obtain ⟨outcome₀, files₀, codec₀, sampler₀, hserve₀, -, hrun₀⟩ :=
    engine.serves hdisk hstat hraw { w with sampler := unpicked }
  rw [hrun₀] at hserved
  obtain rfl := eq_ok_of_mapError hserved
  obtain ⟨outcome, files, codec, sampler, hserve, -, hrun⟩ := engine.serves hdisk hstat hraw w
  have hserve₀' : Serves engine RecordedFiles.look path false w.files w.codec (.ok served) files₀
      codec₀ := hunpicked ▸ hserve₀
  rw [hpicked] at hserve
  have hanswer₀ := hserve₀'.answers fun hsettle => hsettle.of_unpicked hresolve
  have hanswer := hserve.answers fun hsettle => hsettle.of_interrupted hstat hresolve hpath hsweep
  obtain ⟨file, hget⟩ : ∃ file, w.files.memory.files.get? r.file.path = some file := by
    cases hget : w.files.memory.files.get? r.file.path with
    | some file => exact ⟨file, rfl⟩
    | none => cases hanswer₀.eq_of_gone hfiles hremovals hget
  have hcomes₀ := hanswer₀.comes hfiles hremovals hget
  obtain ⟨doomed, hstale, hremove⟩ := exists_doomed_of_error hstat hsweep
  rw [hfiles] at hremove
  obtain ⟨gone, refused, rest, rfl, hmemory⟩ := RecordedFiles.run_removeAll_error hremove
  have hleft : t.memory.files.get? r.file.path
      = if r.file.path ∈ gone then none else some file := by
    rw [hmemory, Catalog.get?_without, hget]
  have hfirst : r.file.path ∉ gone → ∃ again, outcome = .ok again ∧ again.body = served.body ∧
      again.contentType = served.contentType ∧ again.origin = served.origin ∧
      (t.memory = w.files.memory → again = served) := by
    intro hnot
    rw [if_neg hnot] at hleft
    exact hcomes₀.congr (hanswer.comes hfiles hremovals hleft)
  refine ⟨gone, refused, rest, hstale, hmemory, fun hnot => ?_, fun hgone => ?_, fun hnil => ?_,
    fun hplain hne => ?_⟩
  · obtain ⟨again, rfl, hbody, htype, horigin, -⟩ := hfirst hnot
    exact ⟨again, by rw [hrun]; rfl, hbody, htype, horigin⟩
  · rw [if_pos hgone] at hleft
    rw [hrun, hanswer.eq_of_gone hfiles hremovals hleft]
    rfl
  · subst hnil
    obtain ⟨again, rfl, -, -, -, hsame⟩ := hfirst (by simp)
    rw [hrun, hsame hmemory]
    rfl
  · -- The stale file is the first to go, and it is the file of the resolution.
    obtain ⟨first, others, rfl⟩ := List.exists_cons_of_ne_nil hne
    obtain ⟨-, -, -, hdoomed⟩ := stalenessIn_eq_stale.1 hstale
    obtain ⟨rfl, -⟩ := List.cons.inj hdoomed
    rw [← text_eq_of_resolveIn hplain hresolve hpath]
    exact List.mem_cons_self

end Serving

/-! ### A removal that is refused -/

namespace Refused

open Sketching

/-- The removals of one file are refused. -/
def refusals (name : String) : Refusals := fun _ operation path =>
  if operation = .remove ∧ path = name then some (.other "not permitted") else none

theorem removalsOnly (name : String) : (refusals name).RemovalsOnly := by
  intro before operation path e h
  unfold refusals at h
  split at h
  · next hremove => exact hremove.1
  · cases h

def engine (name : String) : Engine RecordedFiles Unit Codec.Sketch.Record ByteArray where
  files := RecordedFiles.fileSystem (refusals name)
  codec := Codec.Sketch.codec
  fallbacks := .builtIn
  backend := .disk

/-- A photo, and two older derivatives of it. -/
def files : RecordedFiles where
  memory :=
    { files := ((Catalog.empty.insert "a_q1.jpg" ⟨.text "X", instant 1, instant 1⟩).insert
        "a_q1_q2.jpg" ⟨.text "Y", instant 2, instant 2⟩).insert
        "a.jpg" ⟨.text "B", instant 3, instant 3⟩
      now := instant 4 }
  calls := []

abbrev path : RequestPath := .single "a_q1_q2.jpg" (by decide)

/-- What a request for the longer derivative comes to, and what is left of the files. -/
def serve (name : String) (s : Sampler) :=
  ((engine name).serve path.text).run.run ⟨files, (), #[], s⟩

end Refused

open Refused in
/-- If the removal of the stale file itself is refused, the request is answered as without a
check. -/
theorem interrupted_sweep_outcome_first_refused :
    ∃ served, (serve path.text ⟨1, 1⟩).1 = .ok served ∧
      (serve path.text ⟨1, 0⟩).1 = .ok served := by
  have hserved : (serve path.text ⟨1, 1⟩).1.isOk = true := by decide +kernel
  have hfound : (fileAt (RecordedFiles.look files) path.text).isSome = true := by decide +kernel
  have hrefused :
      ((sweep (engine path.text).files .builtIn path).run.run files).1.isOk = false := by
    decide +kernel
  have hthere : (((sweep (engine path.text).files .builtIn path).run.run files).2.memory.files.get?
      path.text).isSome = true := by decide +kernel
  cases hserve : (serve path.text ⟨1, 1⟩).1 with
  | error e =>
      rw [hserve] at hserved
      cases hserved
  | ok served =>
      obtain ⟨found, hfile⟩ := Option.isSome_iff_exists.1 hfound
      have hpath : RequestPath.ofRequest found.path = .ok path := by
        rw [(fileAt_eq_some.1 hfile).1]
        exact path.ofRequest_text
      rcases hsweep : (sweep (engine path.text).files .builtIn path).run.run files with ⟨e | b, t⟩
      · obtain ⟨gone, refused, rest, -, hmemory, -, -, hsame, hfirst⟩ :=
          interrupted_sweep_outcome (w := ⟨files, (), #[], ⟨1, 0⟩⟩) rfl rfl (removalsOnly _)
            path.ofRequest_text (by decide : (⟨1, 1⟩ : Sampler).next.1 = false) hserve (by decide)
            (resolveIn_eq_direct.2 hfile) hpath hsweep
        refine ⟨served, rfl, hsame ?_⟩
        by_cases hnil : gone = []
        · exact hnil
        · have hgone := hfirst Fallbacks.plain_builtIn hnil
          rw [Resolution.file, (fileAt_eq_some.1 hfile).1] at hgone
          rw [hsweep, hmemory, Catalog.get?_without, if_pos hgone] at hthere
          cases hthere
      · rw [hsweep] at hrefused
        cases hrefused

open Refused in
/-- If the removal of the stale file goes through and that of its intermediate derivative is
refused, the request fails, though it is answered without a check. -/
theorem interrupted_sweep_unanswered :
    (refusals "a_q1.jpg").RemovalsOnly ∧
      (serve "a_q1.jpg" ⟨1, 1⟩).1.toOption.map (·.origin) = some .file ∧
      stalenessIn files.look .builtIn path = .stale ["a_q1_q2.jpg", "a_q1.jpg"] ∧
      ((sweep (engine "a_q1.jpg").files .builtIn path).run.run files).1.isOk = false ∧
      (serve "a_q1.jpg" ⟨1, 0⟩).1.toOption.map (·.origin) = none ∧
      (serve "a_q1.jpg" ⟨1, 0⟩).2.files.memory.contains "a_q1_q2.jpg" = false ∧
      (serve "a_q1.jpg" ⟨1, 0⟩).2.files.memory.contains "a_q1.jpg" = true := by
  exact ⟨removalsOnly _, by decide +kernel, by decide +kernel, by decide +kernel,
    by decide +kernel, by decide +kernel, by decide +kernel⟩

end Rendition

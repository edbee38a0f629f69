import Mathlib.Data.List.Basic
import Rendition.Cache.Remote
import Rendition.Proofs.Derivation
import Rendition.Proofs.Originals
import Rendition.Proofs.Storing

/-!
# Rendition.Proofs.Agreement

The two modes answer alike. Of files that show what they hold (`FileSystem.Shows`), the answer to a
path is a function of the files and of the codec (`Engine.answerFor`). In store mode it is what a
request comes to that the store does not answer; in disk mode, what a request comes to that is not
picked for a check or finds its file fresh.

In disk mode the time of the true source is looked up after the derivative was written. The
derivative does not show there (`sourceModified_of_written`): the files that its source may have
been made from have shorter stems, whatever their extensions.
-/

namespace Rendition

open Time EngineM

/-! ### Files that show what they hold -/

/-- The content of a file, or the error of reading it. -/
def Catalog.read (files : Catalog StoredFile) (path : String) : Except Error Content :=
  match files.get? path with
  | some file => .ok file.content
  | none => .error (.notFound ("'" ++ path ++ "' does not exist"))

/-- Looks and reads show the files that a state holds, and leave them as they are. A write changes
no file but its own, whether it succeeds or fails. -/
structure FileSystem.Shows {φ : Type} (files : FileSystem φ) (held : φ → Catalog StoredFile) :
    Prop where
  stat : ∀ path, Looks (fun s => (held s).look) (files.stat path) fun look => look path
  read : ∀ path s, ((files.read path).run.run s).1 = (held s).read path ∧
    held ((files.read path).run.run s).2 = held s
  write : ∀ path content s name, name ≠ path →
    (held ((files.write path content).run.run s).2).get? name = (held s).get? name

theorem FileSystem.Shows.of_read {φ : Type} {files : FileSystem φ} {held : φ → Catalog StoredFile}
    (h : files.Shows held) {path : String} {s t : φ} {outcome : Except Error Content}
    (hread : (files.read path).run.run s = (outcome, t)) :
    (held s).read path = outcome ∧ held t = held s := by
  have hshown := h.read path s
  rw [hread] at hshown
  exact ⟨hshown.1.symm, hshown.2⟩

theorem MemoryFiles.shows : fileSystem.Shows MemoryFiles.files where
  stat _ _ := rfl
  read path m := by
    have hrun : (fileSystem.read path).run.run m = _ := run_read m path
    rw [hrun]
    exact ⟨rfl, rfl⟩
  write path content m name hne := by
    have hrun : (fileSystem.write path content).run.run m = _ := run_write m path content
    simp [hrun, insert, hne]

/-- No call but writes is refused. -/
def Refusals.WritesOnly (refusals : Refusals) : Prop :=
  ∀ before operation path e, refusals before operation path = some e → operation = .write

/-- Files that refuse nothing but writes show what is in memory. -/
theorem RecordedFiles.shows {refusals : Refusals} (hwrites : refusals.WritesOnly) :
    (fileSystem refusals).Shows fun s => s.memory.files where
  stat _ _ := rfl
  read path s := by
    have hrefusal : refusals s.calls .read path = none := by
      cases hrefusal : refusals s.calls .read path with
      | none => rfl
      | some e => cases hwrites _ _ _ _ hrefusal
    have hrun : ((fileSystem refusals).read path).run.run s = _ :=
      run_attempt refusals .read path (MemoryFiles.read path) s
    rw [hrun, hrefusal, MemoryFiles.run_read]
    exact ⟨rfl, rfl⟩
  write path content s name hne := by
    have hrun : ((fileSystem refusals).write path content).run.run s = _ :=
      run_attempt refusals .write path (MemoryFiles.write path content) s
    rw [hrun]
    cases refusals s.calls .write path with
    | some e => rfl
    | none => simp [MemoryFiles.run_write, MemoryFiles.insert, hne]

/-! ### The answer to a path -/

namespace Engine

variable {φ γ κ η : Type} (engine : Engine φ γ κ η) (files : Catalog StoredFile) (k : κ)
  (path : RequestPath)

/-- The answer from a resolution, if nothing comes in between. -/
def answerTo : Resolution → Except Error Served
  | .direct file => do
    let body ← files.read file.path
    pure (served path body (some (sourceModified files.look engine.fallbacks file)) .file)
  | .derived source chain extension => do
    let content ← files.read source.path
    let execution ← ((engine.codec.execute content chain extension).run.run k).1
    pure (served path execution.result
      (some (sourceModified files.look engine.fallbacks source)) .derived)

/-- The answer to a path, if nothing comes in between. -/
def answerFor : Except Error Served := do
  let resolution ← (resolveIn files.look engine.fallbacks path).mapError Unresolved.toError
  engine.answerTo files k path resolution

variable {engine files k path}

/-- With a deterministic codec the answer does not depend on the state of the codec. -/
theorem answerFor_congr (hcodec : engine.codec.Deterministic) (l : κ) :
    engine.answerFor files k path = engine.answerFor files l path := by
  unfold answerFor
  refine congrArg _ (funext fun resolution => ?_)
  cases resolution with
  | direct => rfl
  | derived source chain extension =>
      simp only [answerTo, hcodec.execute _ chain extension k l]

end Engine

/-! ### Store mode -/

section Store

variable {φ γ κ η : Type} {engine : Engine φ γ κ η} {held : φ → Catalog StoredFile}
  {path : RequestPath} {w : World φ γ κ}

/-- What a path comes to without a store. -/
theorem Engine.run_unkept (hshows : engine.files.Shows held) :
    ((engine.unkept path).run.run w).1
      = (engine.answerFor (held w.files) w.codec path).mapError .failed := by
  rw [unkept, answered, run_bind, run_resolved hshows.stat, answerFor]
  cases resolveIn (held w.files).look engine.fallbacks path with
  | error u => rfl
  | ok r =>
      change ((engine.answer _ path r).run.run w).1
        = (engine.answerTo (held w.files) w.codec path r).mapError .failed
      cases r with
      | direct found =>
          rcases hrun : (engine.files.read found.path).run.run w.files with ⟨outcome, t⟩
          obtain ⟨hshown, hheld⟩ := hshows.of_read hrun
          rw [answer, run_filing_orFail, hrun, answerTo, hshown]
          cases outcome with
          | error e => rfl
          | ok body =>
              simp only [run_bind, run_trueSourceModified hshows.stat, hheld]
              rfl
      | derived source chain extension =>
          rcases hrun : (engine.files.read source.path).run.run w.files with ⟨outcome, t⟩
          obtain ⟨hshown, hheld⟩ := hshows.of_read hrun
          rw [answer, run_bind, run_derive, hrun, answerTo, hshown]
          cases outcome with
          | error e => rfl
          | ok content =>
              have hpure : ∀ u, (pure () : EngineM φ γ κ Unit).run.run u = (.ok (), u) :=
                fun _ => rfl
              rcases hexecute : (engine.codec.execute content chain extension).run.run w.codec
                with ⟨e | execution, l⟩
              · simp only [bind, Except.bind, hexecute]
                rfl
              · simp only [hexecute, run_bind, hpure, run_trueSourceModified hshows.stat, hheld]
                simp only [bind, Except.bind, hexecute]
                rfl

/-- A request to a store is answered from the store, or with the answer to its path. -/
theorem ServesFromStore.answer_cases {cache : Cache γ} {ttl : Duration}
    {outcome : Except Halt Served} {c : γ} (hshows : engine.files.Shows held)
    (hserves : ServesFromStore engine cache ttl path w outcome c)
    (hrange : outcome ≠ .error .overflow) :
    (∃ body c', (cache.get path.text).run.run w.cache = (.ok (some body), c') ∧
      outcome = .ok (Engine.served path body none .cached)) ∨
    outcome = (engine.answerFor (held w.files) w.codec path).mapError .failed := by
  cases hserves with
  | hit hget => exact Or.inl ⟨_, _, hget, rfl⟩
  | untimely | overdue => exact absurd rfl hrange
  | unkept _ hanswer | made _ hanswer =>
      exact Or.inr (hanswer.symm.trans (Engine.run_unkept hshows))

end Store

/-! ### Disk mode -/

section Disk

variable {fallbacks : Fallbacks} {look look' : String → Option FileStat} {path : RequestPath}

/-- What is written at the path of a request does not show in the time of the true source. -/
theorem sourceModified_of_written (hplain : fallbacks.Plain) {source : FoundFile} {chain : Chain}
    {extension : String}
    (hresolve : resolveIn look fallbacks path = .ok (.derived source chain extension))
    (hothers : ∀ name, name ≠ path.text → look' name = look name) :
    sourceModified look' fallbacks source = sourceModified look fallbacks source := by
  obtain ⟨-, stem, hsplit, cut, hcut, -, hfirst, -⟩ := resolveIn_eq_derived.1 hresolve
  obtain ⟨c, hc, hfile⟩ := exists_of_firstAt hfirst
  have hext := hplain.isExtension (RequestPath.isExtension hsplit) hc
  obtain ⟨q, htext, hdir, hsplit'⟩ := exists_level hsplit hcut hext
  have hpath : RequestPath.ofRequest source.path = .ok q := by
    rw [(fileAt_eq_some.1 hfile).1, ← htext]
    exact q.ofRequest_text
  have hancestors : ancestorsIn look' fallbacks q = ancestorsIn look fallbacks q := by
    rw [ancestorsIn_eq hsplit', ancestorsIn_eq hsplit']
    refine List.filterMap_congr fun level hlevel => firstAt_congr fun c' _ => hothers _ ?_
    -- The level is a cut of the stem of the request with tokens behind it.
    obtain ⟨hlevel, hne, -⟩ := mem_generatedCuts.1 hlevel
    have hother := pathOf_ne_text (c := c') hsplit (cut_trans hcut hlevel) (by simp [hne])
    rwa [hdir]
  simp only [sourceModified, hpath, hancestors]

variable {φ γ κ η : Type} {engine : Engine φ γ κ η} {held : φ → Catalog StoredFile}

/-- What answering a resolution comes to in disk mode. -/
theorem Answers.eq_answerTo (hshows : engine.files.Shows held) (hplain : engine.fallbacks.Plain)
    {r : Resolution} {s u : φ} {k l : κ} {outcome : Except Error Served}
    (hresolve : resolveIn (held s).look engine.fallbacks path = .ok r)
    (hanswer : Answers engine (fun s => (held s).look) path r s k outcome u l) :
    outcome = engine.answerTo (held s) k path r := by
  cases hanswer with
  | @unread r _ _ _ e hread =>
      have hshown := (hshows.of_read hread).1
      cases r <;> simp only [Engine.answerTo, Resolution.file] at hshown ⊢ <;> rw [hshown] <;> rfl
  | file hread =>
      obtain ⟨hshown, hheld⟩ := hshows.of_read hread
      simp only [Engine.answerTo, hshown, hheld]
      rfl
  | undone hread hexecute =>
      simp only [Engine.answerTo, (hshows.of_read hread).1, bind, Except.bind, hexecute]
  | @made _ _ _ _ t _ _ _ _ execution hread hexecute hkeep =>
      obtain ⟨hshown, hheld⟩ := hshows.of_read hread
      have hothers : ∀ name, name ≠ path.text → (held u).look name = (held s).look name := by
        intro name hne
        cases hkeep with
        | bare => rw [hheld]
        | written _ hwrite =>
            have hget := hshows.write path.text execution.result t name hne
            rw [hwrite, hheld] at hget
            simp only [Catalog.look, hget]
      simp only [Engine.answerTo, hshown, bind, Except.bind, hexecute,
        sourceModified_of_written hplain hresolve hothers]
      rfl

/-- A request in disk mode that is not picked for a check, or finds its file fresh, is answered with
the answer to its path. -/
theorem Serves.eq_answerFor (hshows : engine.files.Shows held) (hplain : engine.fallbacks.Plain)
    {picked : Bool} {s u : φ} {k l : κ} {outcome : Except Error Served}
    (hcheck : ∀ r, resolveIn (held s).look engine.fallbacks path = .ok r → picked = true →
      ∃ onDisk, RequestPath.ofRequest r.file.path = .ok onDisk ∧
        stalenessIn (held s).look engine.fallbacks onDisk = .fresh)
    (hserve : Serves engine (fun s => (held s).look) path picked s k outcome u l) :
    outcome = engine.answerFor (held s) k path := by
  cases hresolve : resolveIn (held s).look engine.fallbacks path with
  | error unresolved =>
      have hunresolved : ∀ {outcome t}, Settles engine.files (fun s => (held s).look)
          engine.fallbacks path picked s outcome t → outcome = .error unresolved.toError := by
        intro outcome t hsettle
        cases hsettle with
        | unresolved hresolve' =>
            obtain rfl := Except.error.inj (hresolve.symm.trans hresolve')
            rfl
        | unpicked hresolve' | misnamed hresolve' | fresh hresolve' | swept hresolve'
        | interrupted hresolve' => cases hresolve.symm.trans hresolve'
      cases hserve with
      | unsettled hsettle =>
          obtain rfl := Except.error.inj (hunresolved hsettle)
          simp only [Engine.answerFor, hresolve]
          rfl
      | answered hsettle => cases hunresolved hsettle
  | ok r =>
      have hanswer := hserve.answers (r := r) (t := s) fun hsettle => by
        cases picked with
        | false => exact hsettle.of_unpicked hresolve
        | true =>
            obtain ⟨onDisk, hpath, hfresh⟩ := hcheck r hresolve rfl
            exact hsettle.of_fresh hresolve hpath hfresh
      rw [hanswer.eq_answerTo hshows hplain hresolve, Engine.answerFor, hresolve]
      rfl

end Disk

/-! ### The two modes -/

namespace Engine

section Modes

variable {φ γ κ η : Type} (engine : Engine φ γ κ η)

/-- The same parts, with derivatives kept as files. -/
def onDisk : Engine φ γ κ η := { engine with backend := .disk }

/-- The same parts, with derivatives kept in a store. -/
def inStore (cache : Cache γ) (ttl : Duration) : Engine φ γ κ η :=
  { engine with backend := .store cache ttl }

variable {engine} {held : φ → Catalog StoredFile} {raw : String} {path : RequestPath}
  {w : World φ γ κ}

theorem run_serve_disk (hdisk : engine.backend = .disk) (hshows : engine.files.Shows held)
    (hplain : engine.fallbacks.Plain) (hraw : RequestPath.ofRequest raw = .ok path)
    (hcheck : ∀ r, resolveIn (held w.files).look engine.fallbacks path = .ok r →
      w.sampler.next.1 = true → ∃ onDisk, RequestPath.ofRequest r.file.path = .ok onDisk ∧
        stalenessIn (held w.files).look engine.fallbacks onDisk = .fresh) :
    ((engine.serve raw).run.run w).1
      = (engine.answerFor (held w.files) w.codec path).mapError .failed := by
  obtain ⟨outcome, files, codec, sampler, hserve, -, hrun⟩ :=
    Engine.serves hdisk hshows.stat hraw w
  rw [hrun, hserve.eq_answerFor hshows hplain hcheck]

theorem run_serve_missed {cache : Cache γ} {ttl : Duration}
    (hstore : engine.backend = .store cache ttl) (hshows : engine.files.Shows held)
    (hraw : RequestPath.ofRequest raw = .ok path) {c : γ}
    (hmiss : cache.Misses path.text w.cache c)
    (hrange : ((engine.serve raw).run.run w).1 ≠ .error .overflow) :
    ((engine.serve raw).run.run w).1
      = (engine.answerFor (held w.files) w.codec path).mapError .failed := by
  rcases (serves_from_store hstore hraw w).answer_cases hshows hrange with
    ⟨body, c', hget, -⟩ | houtcome
  · obtain ⟨found, hget', hfound⟩ := hmiss
    obtain ⟨rfl, -⟩ := Prod.mk.inj (hget.symm.trans hget')
    rcases hfound with hfound | ⟨e, hfound⟩ <;> cases hfound
  · exact houtcome

end Modes

end Engine

/-- On the same files in memory, whose writes may be refused, and with a deterministic codec: a
request in disk mode that is not picked for a check, or finds its file fresh, has the outcome of the
request in store mode, if the lookup there finds nothing or fails and the store does not leave the
range of its clock. -/
theorem modes_agree {γ κ η : Type} {engine : Engine RecordedFiles γ κ η} {refusals : Refusals}
    (hfiles : engine.files = RecordedFiles.fileSystem refusals) (hwrites : refusals.WritesOnly)
    (hplain : engine.fallbacks.Plain) (hcodec : engine.codec.Deterministic) {cache : Cache γ}
    {ttl : Duration} {raw : String} {w v : World RecordedFiles γ κ}
    (hsame : v.files.memory.files = w.files.memory.files)
    (hcheck : ∀ path r, RequestPath.ofRequest raw = .ok path →
      resolveIn w.files.look engine.fallbacks path = .ok r → w.sampler.next.1 = true →
      ∃ onDisk, RequestPath.ofRequest r.file.path = .ok onDisk ∧
        stalenessIn w.files.look engine.fallbacks onDisk = .fresh)
    (hmiss : ∀ path, RequestPath.ofRequest raw = .ok path →
      ∃ c, cache.Misses path.text v.cache c)
    (hrange : (((engine.inStore cache ttl).serve raw).run.run v).1 ≠ .error .overflow) :
    ((engine.onDisk.serve raw).run.run w).1
      = (((engine.inStore cache ttl).serve raw).run.run v).1 := by
  have hshows : engine.files.Shows fun s => s.memory.files :=
    hfiles ▸ RecordedFiles.shows hwrites
  have hdisk : engine.onDisk.backend = .disk := rfl
  have hstore : (engine.inStore cache ttl).backend = .store cache ttl := rfl
  cases hraw : RequestPath.ofRequest raw with
  | error e => rw [Engine.run_serve_unnamed hraw, Engine.run_serve_unnamed hraw]
  | ok path =>
      obtain ⟨c, hmissed⟩ := hmiss path hraw
      rw [Engine.run_serve_disk hdisk hshows hplain hraw fun r => hcheck path r hraw,
        Engine.run_serve_missed hstore hshows hraw hmissed hrange, hsame]
      exact congrArg _ (engine.answerFor_congr hcodec v.codec)

/-! ### A photo that cannot be written beside -/

namespace Sketching

/-- No file can be written. -/
def writeRefused : Refusals := fun _ operation _ =>
  if operation = .write then some (.other "not permitted") else none

theorem writesOnly_writeRefused : writeRefused.WritesOnly := by
  intro before operation path e h
  unfold writeRefused at h
  split at h
  · assumption
  · cases h

/-- Sketches on files that cannot be written. -/
def unwritable : Engine RecordedFiles (RemoteCache Unit) Codec.Sketch.Record ByteArray where
  files := RecordedFiles.fileSystem writeRefused
  codec := Codec.Sketch.codec
  fallbacks := .builtIn
  backend := .disk

/-- A photo. The next request is picked for a check. -/
def unwritablePhoto : World RecordedFiles (RemoteCache Unit) Codec.Sketch.Record where
  files := ⟨(photo ⟨0, 0⟩).files, []⟩
  cache := .lazily ()
  codec := #[]
  sampler := ⟨0, 0⟩

end Sketching

open Sketching in
/-- A derivative of the photo is made in both modes, though no file can be written in the one and
nothing listens at the address of the store in the other. -/
theorem modes_agree_unkept :
    unwritablePhoto.sampler.next.1 = true ∧
      ((unwritable.onDisk.serve "a_q1.jpg").run.run unwritablePhoto).1.toOption.map (·.origin)
        = some .derived ∧
      ((unwritable.onDisk.serve "a_q1.jpg").run.run unwritablePhoto).1
        = (((unwritable.inStore (RemoteCache.cache .absent) (.ofSeconds 1)).serve
            "a_q1.jpg").run.run unwritablePhoto).1 := by
  have hderived : (((unwritable.inStore (RemoteCache.cache .absent) (.ofSeconds 1)).serve
      "a_q1.jpg").run.run unwritablePhoto).1.toOption.map (·.origin) = some .derived := by
    decide +kernel
  have hsource : (resolveIn unwritablePhoto.files.look .builtIn
      (.single "a_q1.jpg" (by decide))).toOption.map (·.file.path) = some "a.jpg" := by
    decide +kernel
  refine ⟨by decide, by decide +kernel, modes_agree rfl writesOnly_writeRefused
    Fallbacks.plain_builtIn Codec.Sketch.deterministic_codec rfl ?_ ?_ fun hoverflow => ?_⟩
  · intro path r hraw hresolve _
    have hsingle := RequestPath.ofRequest_single "a_q1.jpg" (by decide)
    obtain rfl := Except.ok.inj (hsingle.symm.trans hraw)
    have hfile : r.file.path = "a.jpg" := by
      change resolveIn _ .builtIn _ = _ at hresolve
      simpa [hresolve, Except.toOption] using hsource
    rw [hfile]
    exact ⟨_, RequestPath.ofRequest_single "a.jpg" (by decide), by decide +kernel⟩
  · exact fun path _ => ⟨_, _, rfl, Or.inr ⟨_, rfl⟩⟩
  · simp [hoverflow, Except.toOption] at hderived

end Rendition

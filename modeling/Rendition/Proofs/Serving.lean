import Rendition.Codec.Sketch
import Rendition.Engine
import Rendition.Proofs.Files

/-!
# Rendition.Proofs.Serving

What a request in disk mode can do, said once. A request first settles on a resolution, which may
sweep a stale file (`Settles`), and then answers it, which may keep a derivative (`Answers`); the
two make up `Serves`. The relations hold for any files that can be looked at and any codec, whose
calls may fail. Every request for a path serves it (`Engine.serves`), so later modules reason from
the cases and open neither the engine nor its monads again.
-/

namespace Rendition

open Time EngineM

/-! ### Runs of the steps of an engine -/

section Steps

variable {φ γ κ α : Type} (w : World φ γ κ)

@[simp] theorem run_looking (m : StateM φ α) :
    (looking m : EngineM φ γ κ α).run.run w
      = (.ok (m.run w.files).1, { w with files := (m.run w.files).2 }) := rfl

@[simp] theorem run_filing (m : FilesM φ α) :
    (filing m : EngineM φ γ κ (Except Error α)).run.run w
      = (.ok (m.run.run w.files).1, { w with files := (m.run.run w.files).2 }) := rfl

@[simp] theorem run_coding (m : CodecM κ α) :
    (coding m : EngineM φ γ κ (Except Error α)).run.run w
      = (.ok (m.run.run w.codec).1, { w with codec := (m.run.run w.codec).2 }) := rfl

@[simp] theorem run_picked :
    (picked : EngineM φ γ κ Bool).run.run w
      = (.ok w.sampler.next.1, { w with sampler := w.sampler.next.2 }) := rfl

@[simp] theorem run_orFail (outcome : Except Error α) :
    (orFail outcome : EngineM φ γ κ α).run.run w = (outcome.mapError .failed, w) := by
  cases outcome <;> rfl

theorem run_orFail_ok (a : α) : (orFail (.ok a) : EngineM φ γ κ α).run.run w = (.ok a, w) :=
  rfl

/-- A call on files whose error ends the request. -/
theorem run_filing_orFail {β : Type} (m : FilesM φ α) (k : α → EngineM φ γ κ β) :
    (filing m >>= fun outcome => orFail outcome >>= k).run.run w
      = match m.run.run w.files with
        | (.ok a, t) => (k a).run.run { w with files := t }
        | (.error e, t) => (.error (.failed e), { w with files := t }) := by
  rw [run_bind, run_filing]
  simp only
  rw [run_bind, run_orFail]
  rcases m.run.run w.files with ⟨_ | _, t⟩ <;> rfl

/-- A call on the codec whose error ends the request. -/
theorem run_coding_orFail {β : Type} (m : CodecM κ α) (k : α → EngineM φ γ κ β) :
    (coding m >>= fun outcome => orFail outcome >>= k).run.run w
      = match m.run.run w.codec with
        | (.ok a, l) => (k a).run.run { w with codec := l }
        | (.error e, l) => (.error (.failed e), { w with codec := l }) := by
  rw [run_bind, run_coding]
  simp only
  rw [run_bind, run_orFail]
  rcases m.run.run w.codec with ⟨_ | _, l⟩ <;> rfl

end Steps

theorem eq_ok_of_mapError {ε ε' α : Type} {x : Except ε α} {f : ε → ε'} {a : α}
    (h : x.mapError f = .ok a) : x = .ok a := by
  cases x with
  | error e => cases h
  | ok b => exact congrArg Except.ok (Except.ok.inj h)

/-! ### Settling on a resolution -/

/-- What settling on a resolution comes to for a request that is picked for a check or not, and what
is left of the files. -/
inductive Settles {φ : Type} (files : FileSystem φ) (lookIn : φ → String → Option FileStat)
    (fallbacks : Fallbacks) (path : RequestPath) :
    (picked : Bool) → φ → Except Error Resolution → φ → Prop
  /-- The path is not resolved. -/
  | unresolved {picked : Bool} {s : φ} {u : Unresolved}
      (hresolve : resolveIn (lookIn s) fallbacks path = .error u) :
      Settles files lookIn fallbacks path picked s (.error u.toError) s
  /-- The path is resolved, and nothing is checked. -/
  | unpicked {s : φ} {r : Resolution} (hresolve : resolveIn (lookIn s) fallbacks path = .ok r) :
      Settles files lookIn fallbacks path false s (.ok r) s
  /-- The file of the resolution has a path that no request can name. -/
  | misnamed {s : φ} {r : Resolution} {e : Error}
      (hresolve : resolveIn (lookIn s) fallbacks path = .ok r)
      (hpath : RequestPath.ofRequest r.file.path = .error e) :
      Settles files lookIn fallbacks path true s (.error e) s
  /-- The file of the resolution is fresh. -/
  | fresh {s : φ} {r : Resolution} {onDisk : RequestPath}
      (hresolve : resolveIn (lookIn s) fallbacks path = .ok r)
      (hpath : RequestPath.ofRequest r.file.path = .ok onDisk)
      (hfresh : stalenessIn (lookIn s) fallbacks onDisk = .fresh) :
      Settles files lookIn fallbacks path true s (.ok r) s
  /-- The file of the resolution is stale and removed, and the path is resolved anew. -/
  | swept {s t : φ} {r : Resolution} {onDisk : RequestPath} {doomed : List String}
      (hresolve : resolveIn (lookIn s) fallbacks path = .ok r)
      (hpath : RequestPath.ofRequest r.file.path = .ok onDisk)
      (hstale : stalenessIn (lookIn s) fallbacks onDisk = .stale doomed)
      (hremove : (removeAll files doomed).run.run s = (.ok (), t)) :
      Settles files lookIn fallbacks path true s
        ((resolveIn (lookIn t) fallbacks path).mapError Unresolved.toError) t
  /-- The file of the resolution is stale, and its removal fails on the way. -/
  | interrupted {s t : φ} {r : Resolution} {onDisk : RequestPath} {doomed : List String} {e : Error}
      (hresolve : resolveIn (lookIn s) fallbacks path = .ok r)
      (hpath : RequestPath.ofRequest r.file.path = .ok onDisk)
      (hstale : stalenessIn (lookIn s) fallbacks onDisk = .stale doomed)
      (hremove : (removeAll files doomed).run.run s = (.error e, t)) :
      Settles files lookIn fallbacks path true s (.ok r) t

namespace Engine

variable {φ γ κ η : Type} (engine : Engine φ γ κ η)

/-- The resolution that a request is answered from, after the check if the request is picked for
one. -/
def settled (path : RequestPath) : EngineM φ γ κ Resolution := do
  let resolution ← engine.resolved path
  if ← picked then engine.refreshed path resolution else pure resolution

/-- In disk mode a request settles on a resolution and answers it. -/
theorem serveFromFiles_eq (path : RequestPath) :
    engine.serveFromFiles path
      = engine.settled path >>= engine.answer (engine.keepOnDisk path) path := by
  simp only [serveFromFiles, settled, bind_assoc]
  refine congrArg _ (funext fun resolution => congrArg _ (funext fun check => ?_))
  cases check <;> simp

variable {engine} {lookIn : φ → String → Option FileStat}

theorem run_resolved (hstat : ∀ path, Looks lookIn (engine.files.stat path) fun look => look path)
    (path : RequestPath) (w : World φ γ κ) :
    (engine.resolved path).run.run w
      = (((resolveIn (lookIn w.files) engine.fallbacks path).mapError
          Unresolved.toError).mapError .failed, w) := by
  have hlook : (Rendition.resolve engine.files.stat engine.fallbacks path).run w.files = _ :=
    looks_resolve hstat path w.files
  rw [resolved, run_bind, run_looking, hlook]
  exact run_orFail w _

/-- Whatever looks do, resolving a path changes nothing but the files, and fails only with what it
reports of a path that is not resolved. -/
theorem exists_run_resolved (engine : Engine φ γ κ η) (path : RequestPath) (w : World φ γ κ) :
    ∃ (outcome : Except Unresolved Resolution) (files : φ),
      (engine.resolved path).run.run w
        = ((outcome.mapError Unresolved.toError).mapError .failed, { w with files := files }) := by
  rw [resolved, run_bind, run_looking]
  exact ⟨_, _, run_orFail _ _⟩

/-- A request that is resolved goes through its check if it is picked for one. -/
theorem run_settled (hstat : ∀ path, Looks lookIn (engine.files.stat path) fun look => look path)
    {path : RequestPath} {w : World φ γ κ} {r : Resolution}
    (hresolve : resolveIn (lookIn w.files) engine.fallbacks path = .ok r) :
    (engine.settled path).run.run w
      = (if w.sampler.next.1 then engine.refreshed path r else pure r).run.run
          { w with sampler := w.sampler.next.2 } := by
  have hresolved : (engine.resolved path).run.run w = (.ok r, w) := by
    rw [run_resolved hstat, hresolve]
    rfl
  rw [settled, run_bind_of_ok hresolved, run_bind, run_picked]

/-- Settling on a resolution leaves the codec, the store and the interval of checks alone. -/
theorem settled_cases
    (hstat : ∀ path, Looks lookIn (engine.files.stat path) fun look => look path)
    (path : RequestPath) (w : World φ γ κ) :
    ∃ outcome files sampler,
      Settles engine.files lookIn engine.fallbacks path w.sampler.next.1 w.files outcome files ∧
        sampler.mask = w.sampler.mask ∧
        (engine.settled path).run.run w
          = (outcome.mapError .failed, { w with files := files, sampler := sampler }) := by
  cases hresolve : resolveIn (lookIn w.files) engine.fallbacks path with
  | error u =>
      refine ⟨.error u.toError, w.files, w.sampler, .unresolved hresolve, rfl, ?_⟩
      rw [settled, run_bind, run_resolved hstat, hresolve]
      rfl
  | ok r =>
      rw [run_settled hstat hresolve]
      cases hpick : w.sampler.next.1 with
      | false => exact ⟨.ok r, w.files, w.sampler.next.2, .unpicked hresolve, rfl, rfl⟩
      | true =>
          rw [if_pos rfl, refreshed]
          cases hpath : RequestPath.ofRequest r.file.path with
          | error e =>
              exact ⟨.error e, w.files, w.sampler.next.2, .misnamed hresolve hpath, rfl, rfl⟩
          | ok onDisk =>
              rw [run_bind_of_ok (run_orFail_ok _ onDisk), run_bind, run_filing, run_sweep hstat]
              cases hstale : stalenessIn (lookIn w.files) engine.fallbacks onDisk with
              | fresh =>
                  exact ⟨.ok r, w.files, w.sampler.next.2, .fresh hresolve hpath hstale, rfl, rfl⟩
              | stale doomed =>
                  simp only
                  rcases hremove : (removeAll engine.files doomed).run.run w.files
                    with ⟨e | _, t⟩
                  · exact ⟨.ok r, t, w.sampler.next.2,
                      .interrupted hresolve hpath hstale hremove, rfl, rfl⟩
                  · exact ⟨_, t, w.sampler.next.2,
                      .swept hresolve hpath hstale hremove, rfl, run_resolved hstat path _⟩

end Engine

section Settled

variable {φ : Type} {files : FileSystem φ} {lookIn : φ → String → Option FileStat}
  {fallbacks : Fallbacks} {path : RequestPath} {picked : Bool} {s t : φ}

/-- Where a resolution comes from that a request settles on. It is the first one, or the file of the
first one was stale and was swept, as far as that went. -/
theorem Settles.ok_inv {r : Resolution}
    (hsettle : Settles files lookIn fallbacks path picked s (.ok r) t) :
    (resolveIn (lookIn s) fallbacks path = .ok r ∧ t = s ∧
      (picked = true → ∃ onDisk, RequestPath.ofRequest r.file.path = .ok onDisk ∧
        stalenessIn (lookIn s) fallbacks onDisk = .fresh)) ∨
    ∃ first onDisk doomed, picked = true ∧ resolveIn (lookIn s) fallbacks path = .ok first ∧
      RequestPath.ofRequest first.file.path = .ok onDisk ∧
      stalenessIn (lookIn s) fallbacks onDisk = .stale doomed ∧
      ((removeAll files doomed).run.run s = (.ok (), t) ∧
          resolveIn (lookIn t) fallbacks path = .ok r ∨
        ∃ e, (removeAll files doomed).run.run s = (.error e, t) ∧ first = r) := by
  generalize hr : (Except.ok r : Except Error Resolution) = outcome at hsettle
  cases hsettle with
  | unresolved | misnamed => cases hr
  | unpicked hresolve =>
      obtain rfl := Except.ok.inj hr
      exact Or.inl ⟨hresolve, rfl, by simp⟩
  | fresh hresolve hpath hfresh =>
      obtain rfl := Except.ok.inj hr
      exact Or.inl ⟨hresolve, rfl, fun _ => ⟨_, hpath, hfresh⟩⟩
  | swept hresolve hpath hstale hremove =>
      exact Or.inr ⟨_, _, _, rfl, hresolve, hpath, hstale,
        Or.inl ⟨hremove, eq_ok_of_mapError hr.symm⟩⟩
  | interrupted hresolve hpath hstale hremove =>
      exact Or.inr ⟨_, _, _, rfl, hresolve, hpath, hstale,
        Or.inr ⟨_, hremove, (Except.ok.inj hr).symm⟩⟩

/-- A request that is not picked settles on its resolution. -/
theorem Settles.of_unpicked {outcome : Except Error Resolution} {r : Resolution}
    (hresolve : resolveIn (lookIn s) fallbacks path = .ok r)
    (hsettle : Settles files lookIn fallbacks path false s outcome t) :
    outcome = .ok r ∧ t = s := by
  cases hsettle with
  | unresolved hresolve' => cases hresolve.symm.trans hresolve'
  | unpicked hresolve' =>
      obtain rfl := Except.ok.inj (hresolve.symm.trans hresolve')
      exact ⟨rfl, rfl⟩

/-- A request whose file is fresh settles on its resolution. -/
theorem Settles.of_fresh {outcome : Except Error Resolution} {r : Resolution}
    {onDisk : RequestPath} (hresolve : resolveIn (lookIn s) fallbacks path = .ok r)
    (hpath : RequestPath.ofRequest r.file.path = .ok onDisk)
    (hfresh : stalenessIn (lookIn s) fallbacks onDisk = .fresh)
    (hsettle : Settles files lookIn fallbacks path picked s outcome t) :
    outcome = .ok r ∧ t = s := by
  cases hsettle with
  | unresolved hresolve' => cases hresolve.symm.trans hresolve'
  | unpicked hresolve' | fresh hresolve' =>
      obtain rfl := Except.ok.inj (hresolve.symm.trans hresolve')
      exact ⟨rfl, rfl⟩
  | misnamed hresolve' hpath' =>
      obtain rfl := Except.ok.inj (hresolve.symm.trans hresolve')
      cases hpath.symm.trans hpath'
  | swept hresolve' hpath' hstale | interrupted hresolve' hpath' hstale =>
      obtain rfl := Except.ok.inj (hresolve.symm.trans hresolve')
      obtain rfl := Except.ok.inj (hpath.symm.trans hpath')
      cases hfresh.symm.trans hstale

/-- A request for a file settles on that file, unless it finds it stale. -/
theorem Settles.of_direct {outcome : Except Error Resolution} {found : FoundFile}
    (hfile : fileAt (lookIn s) path.text = some found)
    (hsettle : Settles files lookIn fallbacks path picked s outcome t) :
    (outcome = .ok (.direct found) ∧ t = s ∧
      (picked = true → stalenessIn (lookIn s) fallbacks path = .fresh)) ∨
    ∃ doomed, stalenessIn (lookIn s) fallbacks path = .stale doomed ∧
      ((removeAll files doomed).run.run s = (.ok (), t) ∧
          outcome = (resolveIn (lookIn t) fallbacks path).mapError Unresolved.toError ∨
        ∃ e, (removeAll files doomed).run.run s = (.error e, t) ∧
          outcome = .ok (.direct found)) := by
  have hdirect : resolveIn (lookIn s) fallbacks path = .ok (.direct found) :=
    resolveIn_eq_direct.2 hfile
  have honDisk : ∀ {r : Resolution}, resolveIn (lookIn s) fallbacks path = .ok r →
      r = .direct found ∧ RequestPath.ofRequest r.file.path = .ok path := by
    intro r hresolve
    obtain rfl := Except.ok.inj (hdirect.symm.trans hresolve)
    refine ⟨rfl, ?_⟩
    rw [Resolution.file, (fileAt_eq_some.1 hfile).1]
    exact path.ofRequest_text
  cases hsettle with
  | unresolved hresolve => simp [hdirect] at hresolve
  | unpicked hresolve => exact Or.inl ⟨by rw [(honDisk hresolve).1], rfl, by simp⟩
  | misnamed hresolve hpath => simp [(honDisk hresolve).2] at hpath
  | fresh hresolve hpath hfresh =>
      obtain rfl := Except.ok.inj ((honDisk hresolve).2.symm.trans hpath)
      exact Or.inl ⟨by rw [(honDisk hresolve).1], rfl, fun _ => hfresh⟩
  | swept hresolve hpath hstale hremove =>
      obtain rfl := Except.ok.inj ((honDisk hresolve).2.symm.trans hpath)
      exact Or.inr ⟨_, hstale, Or.inl ⟨hremove, rfl⟩⟩
  | interrupted hresolve hpath hstale hremove =>
      obtain rfl := Except.ok.inj ((honDisk hresolve).2.symm.trans hpath)
      exact Or.inr ⟨_, hstale, Or.inr ⟨_, hremove, by rw [(honDisk hresolve).1]⟩⟩

/-- On files in memory a sweep goes through. So a request settles on a resolution of the files that
are left. -/
theorem Settles.ok_inv_memory {files : FileSystem MemoryFiles} {m t : MemoryFiles} {r : Resolution}
    (hfiles : files = MemoryFiles.fileSystem)
    (hsettle : Settles files MemoryFiles.look fallbacks path picked m (.ok r) t) :
    resolveIn t.look fallbacks path = .ok r ∧
    (t = m ∧ (picked = true → ∃ onDisk, RequestPath.ofRequest r.file.path = .ok onDisk ∧
        stalenessIn m.look fallbacks onDisk = .fresh) ∨
      ∃ first onDisk doomed, picked = true ∧ resolveIn m.look fallbacks path = .ok first ∧
        RequestPath.ofRequest first.file.path = .ok onDisk ∧
        stalenessIn m.look fallbacks onDisk = .stale doomed ∧
        t = { m with files := m.files.without doomed }) := by
  rcases hsettle.ok_inv with ⟨hresolve, rfl, hfresh⟩ |
    ⟨first, onDisk, doomed, hpicked, hfirst, hpath, hstale, hswept⟩
  · exact ⟨hresolve, Or.inl ⟨rfl, hfresh⟩⟩
  · rcases hswept with ⟨hremove, hresolve⟩ | ⟨e, hremove, -⟩
    · obtain ⟨-, rfl⟩ := MemoryFiles.removeAll_eq hfiles hremove
      exact ⟨hresolve, Or.inr ⟨first, onDisk, doomed, hpicked, hfirst, hpath, hstale, rfl⟩⟩
    · cases (MemoryFiles.removeAll_eq hfiles hremove).1

end Settled

/-! ### Answering a resolution -/

/-- When the true source of a file was modified. -/
def sourceModified (look : String → Option FileStat) (fallbacks : Fallbacks) (file : FoundFile) :
    Timestamp :=
  match RequestPath.ofRequest file.path with
  | .error _ => file.stat.modified
  | .ok path =>
    ((ancestorsIn look fallbacks path).getLast?.map (·.stat.modified)).getD file.stat.modified

/-- What comes of keeping a derivative. -/
inductive Keeps {φ : Type} (files : FileSystem φ) (path : RequestPath) (chain : Chain)
    (body : Content) : φ → φ → Prop
  /-- It comes of a bare conversion, and is not kept. -/
  | bare {s : φ} (hchain : chain.isEmpty = true) : Keeps files path chain body s s
  /-- It is written, or the attempt fails. -/
  | written {s t : φ} {outcome : Except Error Unit} (hchain : chain.isEmpty = false)
      (hwrite : (files.write path.text body).run.run s = (outcome, t)) :
      Keeps files path chain body s t

/-- What answering a resolution comes to, and what it does to the files and to the codec. -/
inductive Answers {φ γ κ η : Type} (engine : Engine φ γ κ η) (lookIn : φ → String → Option FileStat)
    (path : RequestPath) : Resolution → φ → κ → Except Error Served → φ → κ → Prop
  /-- The file cannot be read. -/
  | unread {r : Resolution} {s t : φ} {k : κ} {e : Error}
      (hread : (engine.files.read r.file.path).run.run s = (.error e, t)) :
      Answers engine lookIn path r s k (.error e) t k
  /-- The answer is a file. -/
  | file {found : FoundFile} {s t : φ} {k : κ} {body : Content}
      (hread : (engine.files.read found.path).run.run s = (.ok body, t)) :
      Answers engine lookIn path (.direct found) s k
        (.ok (Engine.served path body (some (sourceModified (lookIn t) engine.fallbacks found))
          .file)) t k
  /-- The chain cannot be carried out. -/
  | undone {source : FoundFile} {chain : Chain} {extension : String} {s t : φ} {k l : κ}
      {content : Content} {e : Error}
      (hread : (engine.files.read source.path).run.run s = (.ok content, t))
      (hexecute : (engine.codec.execute content chain extension).run.run k = (.error e, l)) :
      Answers engine lookIn path (.derived source chain extension) s k (.error e) t l
  /-- The answer is made and kept. -/
  | made {source : FoundFile} {chain : Chain} {extension : String} {s t u : φ} {k l : κ}
      {content : Content} {execution : Execution}
      (hread : (engine.files.read source.path).run.run s = (.ok content, t))
      (hexecute : (engine.codec.execute content chain extension).run.run k = (.ok execution, l))
      (hkeep : Keeps engine.files path chain execution.result t u) :
      Answers engine lookIn path (.derived source chain extension) s k
        (.ok (Engine.served path execution.result
          (some (sourceModified (lookIn u) engine.fallbacks source)) .derived)) u l

namespace Engine

variable {φ γ κ η : Type} {engine : Engine φ γ κ η} {lookIn : φ → String → Option FileStat}

theorem run_trueSourceModified
    (hstat : ∀ path, Looks lookIn (engine.files.stat path) fun look => look path)
    (file : FoundFile) (w : World φ γ κ) :
    (engine.trueSourceModified file.path file.stat.modified).run.run w
      = (.ok (sourceModified (lookIn w.files) engine.fallbacks file), w) := by
  rw [trueSourceModified, sourceModified]
  cases RequestPath.ofRequest file.path with
  | error e => rfl
  | ok path =>
      simp only
      rw [run_bind, run_looking, looks_ancestry hstat path w.files]
      rfl

theorem keepOnDisk_cases (path : RequestPath) (chain : Chain) (body : Content)
    (w : World φ γ κ) :
    ∃ files, Keeps engine.files path chain body w.files files ∧
      (engine.keepOnDisk path chain body).run.run w = (.ok (), { w with files := files }) := by
  rw [keepOnDisk]
  cases hchain : chain.isEmpty with
  | true => exact ⟨w.files, .bare hchain, rfl⟩
  | false => exact ⟨_, .written hchain rfl, rfl⟩

/-- Carrying out a chain reads the source and hands it to the codec. -/
theorem run_derive (source : String) (chain : Chain) (extension : String) (w : World φ γ κ) :
    (engine.derive source chain extension).run.run w
      = match (engine.files.read source).run.run w.files with
        | (.error e, t) => (.error (.failed e), { w with files := t })
        | (.ok content, t) =>
          match (engine.codec.execute content chain extension).run.run w.codec with
          | (.error e, l) => (.error (.failed e), { w with files := t, codec := l })
          | (.ok execution, l) => (.ok execution.result, { w with files := t, codec := l }) := by
  rw [derive, run_filing_orFail]
  rcases (engine.files.read source).run.run w.files with ⟨e | content, t⟩
  · rfl
  · simp only
    rw [run_coding_orFail]
    rcases (engine.codec.execute content chain extension).run.run w.codec with ⟨_ | _, l⟩ <;> rfl

/-- Answering a resolution leaves the store and the sampler alone. -/
theorem answer_cases
    (hstat : ∀ path, Looks lookIn (engine.files.stat path) fun look => look path)
    (path : RequestPath) (r : Resolution) (w : World φ γ κ) :
    ∃ outcome files codec,
      Answers engine lookIn path r w.files w.codec outcome files codec ∧
        (engine.answer (engine.keepOnDisk path) path r).run.run w
          = (outcome.mapError .failed, { w with files := files, codec := codec }) := by
  cases r with
  | direct found =>
      rw [answer, run_filing_orFail]
      rcases hread : (engine.files.read found.path).run.run w.files with ⟨e | body, t⟩
      · exact ⟨.error e, t, w.codec, .unread hread, rfl⟩
      · refine ⟨_, t, w.codec, .file hread, ?_⟩
        simp only
        rw [run_bind, run_trueSourceModified hstat]
        rfl
  | derived source chain extension =>
      rw [answer, run_bind, run_derive]
      rcases hread : (engine.files.read source.path).run.run w.files with ⟨e | content, t⟩
      · exact ⟨.error e, t, w.codec, .unread hread, rfl⟩
      · simp only
        rcases hexecute : (engine.codec.execute content chain extension).run.run w.codec
          with ⟨e | execution, l⟩
        · exact ⟨.error e, t, l, .undone hread hexecute, rfl⟩
        · obtain ⟨u, hkeep, hrun⟩ := engine.keepOnDisk_cases path chain execution.result
            { w with files := t, codec := l }
          refine ⟨_, u, l, .made hread hexecute hkeep, ?_⟩
          simp only
          rw [run_bind, hrun]
          simp only
          rw [run_bind, run_trueSourceModified hstat]
          rfl

end Engine

/-! ### Serving a path -/

/-- What serving a path comes to, and what it does to the files and to the codec. -/
inductive Serves {φ γ κ η : Type} (engine : Engine φ γ κ η) (lookIn : φ → String → Option FileStat)
    (path : RequestPath) (picked : Bool) : φ → κ → Except Error Served → φ → κ → Prop
  /-- There is nothing to answer it from. -/
  | unsettled {s t : φ} {k : κ} {e : Error}
      (hsettle : Settles engine.files lookIn engine.fallbacks path picked s (.error e) t) :
      Serves engine lookIn path picked s k (.error e) t k
  /-- It is answered from a resolution. -/
  | answered {s t u : φ} {k l : κ} {r : Resolution} {outcome : Except Error Served}
      (hsettle : Settles engine.files lookIn engine.fallbacks path picked s (.ok r) t)
      (hanswer : Answers engine lookIn path r t k outcome u l) :
      Serves engine lookIn path picked s k outcome u l

/-- A request that settles on one resolution, whatever it does, is answered from that. -/
theorem Serves.answers {φ γ κ η : Type} {engine : Engine φ γ κ η}
    {lookIn : φ → String → Option FileStat} {path : RequestPath} {picked : Bool} {s t u : φ}
    {k l : κ} {r : Resolution} {outcome : Except Error Served}
    (hsettled : ∀ {outcome : Except Error Resolution} {t' : φ},
      Settles engine.files lookIn engine.fallbacks path picked s outcome t' →
      outcome = .ok r ∧ t' = t)
    (hserve : Serves engine lookIn path picked s k outcome u l) :
    Answers engine lookIn path r t k outcome u l := by
  cases hserve with
  | unsettled hsettle => cases (hsettled hsettle).1
  | answered hsettle hanswer =>
      obtain ⟨hr, rfl⟩ := hsettled hsettle
      obtain rfl := Except.ok.inj hr
      exact hanswer

namespace Engine

variable {φ γ κ η : Type} {engine : Engine φ γ κ η} {lookIn : φ → String → Option FileStat}

/-- In disk mode a request for a path settles on a resolution and answers it. -/
theorem run_serve (hdisk : engine.backend = .disk) {raw : String} {path : RequestPath}
    (hraw : RequestPath.ofRequest raw = .ok path) (w : World φ γ κ) :
    (engine.serve raw).run.run w
      = (engine.settled path >>= engine.answer (engine.keepOnDisk path) path).run.run w := by
  rw [serve, hraw, run_bind_of_ok (run_orFail_ok w path)]
  simp only [hdisk]
  rw [serveFromFiles_eq]

/-- In disk mode a request for a path settles on nothing, and ends with that, or it settles on a
resolution and answers it. -/
theorem serve_cases (hdisk : engine.backend = .disk)
    (hstat : ∀ path, Looks lookIn (engine.files.stat path) fun look => look path) {raw : String}
    {path : RequestPath} (hraw : RequestPath.ofRequest raw = .ok path) (w : World φ γ κ) :
    (∃ e t sampler,
      Settles engine.files lookIn engine.fallbacks path w.sampler.next.1 w.files (.error e) t ∧
      sampler.mask = w.sampler.mask ∧
      (engine.settled path).run.run w
        = (.error (.failed e), { w with files := t, sampler := sampler }) ∧
      (engine.serve raw).run.run w
        = (.error (.failed e), { w with files := t, sampler := sampler })) ∨
    ∃ r t sampler outcome u l,
      Settles engine.files lookIn engine.fallbacks path w.sampler.next.1 w.files (.ok r) t ∧
      sampler.mask = w.sampler.mask ∧
      (engine.settled path).run.run w = (.ok r, { w with files := t, sampler := sampler }) ∧
      Answers engine lookIn path r t w.codec outcome u l ∧
      (engine.serve raw).run.run w = (outcome.mapError .failed,
        { w with files := u, codec := l, sampler := sampler }) := by
  rw [engine.run_serve hdisk hraw, run_bind]
  obtain ⟨outcome, t, sampler, hsettle, hmask, hrun⟩ := engine.settled_cases hstat path w
  rw [hrun]
  cases outcome with
  | error e => exact Or.inl ⟨e, t, sampler, hsettle, hmask, rfl, rfl⟩
  | ok r =>
      obtain ⟨outcome, u, l, hanswer, hrun'⟩ := engine.answer_cases hstat path r
        { w with files := t, sampler := sampler }
      exact Or.inr ⟨r, t, sampler, outcome, u, l, hsettle, hmask, rfl, hanswer, hrun'⟩

/-- In disk mode a request for a path serves it. -/
theorem serves (hdisk : engine.backend = .disk)
    (hstat : ∀ path, Looks lookIn (engine.files.stat path) fun look => look path) {raw : String}
    {path : RequestPath} (hraw : RequestPath.ofRequest raw = .ok path) (w : World φ γ κ) :
    ∃ outcome files codec sampler,
      Serves engine lookIn path w.sampler.next.1 w.files w.codec outcome files codec ∧
      sampler.mask = w.sampler.mask ∧
      (engine.serve raw).run.run w = (outcome.mapError .failed,
        { w with files := files, codec := codec, sampler := sampler }) := by
  rcases engine.serve_cases hdisk hstat hraw w with ⟨e, t, sampler, hsettle, hmask, -, hrun⟩ |
    ⟨r, t, sampler, outcome, u, l, hsettle, hmask, -, hanswer, hrun⟩
  · exact ⟨.error e, t, w.codec, sampler, .unsettled hsettle, hmask, hrun⟩
  · exact ⟨outcome, u, l, sampler, .answered hsettle hanswer, hmask, hrun⟩

/-- A request that names no path changes nothing. -/
theorem run_serve_unnamed {raw : String} {e : Error} (hraw : RequestPath.ofRequest raw = .error e)
    (w : World φ γ κ) : (engine.serve raw).run.run w = (.error (.failed e), w) := by
  rw [serve, run_bind, run_orFail, hraw]
  rfl

end Engine

/-! ### A photo to make requests for -/

namespace Sketching

/-- Sketches on files in memory, with the built-in table. -/
def engine : Engine MemoryFiles Unit Codec.Sketch.Record ByteArray where
  files := MemoryFiles.fileSystem
  codec := Codec.Sketch.codec
  fallbacks := .builtIn
  backend := .disk

/-- That many nanoseconds after the epoch. -/
def instant (nanos : UInt8) : Timestamp where
  nanos := nanos.toNat
  inRange := by
    have := nanos.toNat_lt
    constructor <;> simp only [nanosPerSecond] <;> omega

/-- A photo, under some sampler. -/
def photo (s : Sampler) : World MemoryFiles Unit Codec.Sketch.Record where
  files := ⟨Catalog.empty.insert "a.jpg" ⟨.text "A", instant 1, instant 1⟩, instant 1⟩
  cache := ()
  codec := #[]
  sampler := s

end Sketching

end Rendition

import Rendition.Http.Router
import Rendition.Proofs.Confinement
import Rendition.Proofs.Originals

/-!
# Rendition.Proofs.Failures

Where the error of a request comes from. Both modes find what a path is answered from
(`Engine.found`), and answer it. A request fails because its text names no path, because nothing is
found, because the one file that it reads cannot be read, or because the chain cannot be carried out
on that (`Engine.Fails`). What else goes wrong is recovered from: a sweep or a write that fails, and
a store that does not answer. So the server answers a failed request with one of three status codes,
and blames itself only for a read (`failures_recovered`).
-/

namespace Rendition

open Time EngineM Http

/-! ### The two parts of a request -/

namespace Engine

variable {φ γ κ η : Type} (engine : Engine φ γ κ η)

/-- What a path is answered from: a body that the store has, or a resolution. -/
def found (path : RequestPath) : EngineM φ γ κ (Content ⊕ Resolution) :=
  match engine.backend with
  | .disk => do pure (.inr (← engine.settled path))
  | .store cache _ => do
    match ← orIgnore (← caching (cache.get path.text)) with
    | some (some body) => pure (.inl body)
    | some none | none => do pure (.inr (← engine.resolved path))

/-- Keeps a derivative. -/
def keep (path : RequestPath) (chain : Chain) (body : Content) : EngineM φ γ κ Unit :=
  match engine.backend with
  | .disk => engine.keepOnDisk path chain body
  | .store cache ttl => keepInStore cache ttl path body

/-- The answer from what was found. -/
def answerFound (path : RequestPath) : Content ⊕ Resolution → EngineM φ γ κ Served
  | .inl body => pure (served path body none .cached)
  | .inr r => engine.answer (engine.keep path) path r

/-- In either mode a request finds what its path is answered from, and answers it. -/
theorem serve_eq (raw : String) :
    engine.serve raw = (orFail (RequestPath.ofRequest raw) >>= fun path =>
      engine.found path >>= engine.answerFound path) := by
  refine congrArg _ (funext fun path => ?_)
  have hanswer : ∀ {keep : Chain → Content → EngineM φ γ κ Unit},
      engine.keep path = keep → (fun r => engine.answerFound path (.inr r))
        = engine.answer keep path := by
    rintro _ rfl
    rfl
  cases hbackend : engine.backend with
  | disk =>
      have hkeep : engine.keep path = engine.keepOnDisk path := by
        unfold keep
        rw [hbackend]
      simp only [found, hbackend, serveFromFiles_eq, bind_assoc, pure_bind, hanswer hkeep]
  | store cache ttl =>
      have hkeep : engine.keep path = fun _ body => keepInStore cache ttl path body := by
        unfold keep
        rw [hbackend]
      simp only [found, hbackend, serveFromStore, bind_assoc]
      refine congrArg _ (funext fun outcome => congrArg _ (funext fun body? => ?_))
      rcases body? with _ | _ | body
      · simp only [bind_assoc, pure_bind, hanswer hkeep]
      · simp only [bind_assoc, pure_bind, hanswer hkeep]
      · simp only [pure_bind, answerFound]

end Engine

/-! ### Steps that fail only if a path is not resolved, and steps that do not fail -/

section Steps

variable {φ γ κ η : Type} {engine : Engine φ γ κ η} {path : RequestPath} {w v : World φ γ κ}
  {h : Halt}

theorem resolved_error (hrun : (engine.resolved path).run.run w = (.error h, v)) :
    ∃ u : Unresolved, h = .failed u.toError := by
  obtain ⟨outcome, files, hresolved⟩ := engine.exists_run_resolved path w
  have houtcome := (Prod.mk.inj (hresolved.symm.trans hrun)).1
  cases outcome with
  | ok r => cases houtcome
  | error u => exact ⟨u, (Except.error.inj houtcome).symm⟩

/-- With plain extensions the file that is found has the path of a request. -/
theorem beside_of_resolved (hplain : engine.fallbacks.Plain) {r : Resolution}
    (hrun : (engine.resolved path).run.run w = (.ok r, v)) : Beside path.dir r.file.path := by
  have hwithin : w.traced.Within (Beside path.dir) (· = path.text) w :=
    ⟨⟨rfl, by simp [World.traced]⟩, ⟨rfl, by simp [World.traced]⟩, rfl, rfl⟩
  have hends := (follows_resolved hplain engine.failsIn_true w.traced w hwithin).2.2
  change Ends _ _ ((engine.resolved path).run.run w).1 at hends
  rwa [hrun] at hends

/-- So its check does not fail, whatever the sweep comes to; only the path may not be resolved
again. -/
theorem refreshed_error {r : Resolution} (hr : Beside path.dir r.file.path)
    (hrun : (engine.refreshed path r).run.run w = (.error h, v)) :
    ∃ u : Unresolved, h = .failed u.toError := by
  obtain ⟨q, htext, -⟩ := hr
  rw [Engine.refreshed, ← htext, q.ofRequest_text, run_bind_of_ok (run_orFail_ok w q), run_bind,
    run_filing] at hrun
  rcases hsweep : (sweep engine.files engine.fallbacks q).run.run w.files with ⟨e | _ | _, t⟩
  all_goals rw [hsweep] at hrun
  · cases (Prod.mk.inj hrun).1
  · cases (Prod.mk.inj hrun).1
  · exact resolved_error hrun

theorem settled_error (hplain : engine.fallbacks.Plain)
    (hrun : (engine.settled path).run.run w = (.error h, v)) :
    ∃ u : Unresolved, h = .failed u.toError := by
  rcases run_bind_error_inv hrun with hresolved | ⟨r, t, hresolved, hcheck⟩
  · exact resolved_error hresolved
  · rw [run_bind, run_picked] at hcheck
    simp only at hcheck
    split at hcheck
    · exact refreshed_error (beside_of_resolved hplain hresolved) hcheck
    · cases (Prod.mk.inj hcheck).1

/-- So nothing is found only if a path is not resolved; a lookup that fails finds nothing and goes
on. -/
theorem found_error (hplain : engine.fallbacks.Plain) {e : Error}
    (hrun : (engine.found path).run.run w = (.error (.failed e), v)) :
    ∃ u : Unresolved, e = u.toError := by
  unfold Engine.found at hrun
  cases hbackend : engine.backend with
  | disk =>
      simp only [hbackend] at hrun
      rcases run_bind_error_inv hrun with hsettled | ⟨r, t, -, hwrapped⟩
      · obtain ⟨u, hu⟩ := settled_error hplain hsettled
        exact ⟨u, Halt.failed.inj hu⟩
      · cases (Prod.mk.inj hwrapped).1
  | store cache ttl =>
      have hmissed : ∀ {c : γ},
          (engine.resolved path >>= fun r => pure (.inr r : Content ⊕ Resolution)).run.run
            { w with cache := c } = (.error (.failed e), v) → ∃ u : Unresolved, e = u.toError := by
        intro c hrun
        rcases run_bind_error_inv hrun with hresolved | ⟨r, t, -, hwrapped⟩
        · obtain ⟨u, hu⟩ := resolved_error hresolved
          exact ⟨u, Halt.failed.inj hu⟩
        · cases (Prod.mk.inj hwrapped).1
      simp only [hbackend] at hrun
      rw [run_caching_orIgnore] at hrun
      rcases hget : (cache.get path.text).run.run w.cache with ⟨(_ | _) | _ | body, c⟩
      all_goals rw [hget] at hrun
      · exact hmissed hrun
      · cases (Prod.mk.inj hrun).1
      · exact hmissed hrun
      · cases (Prod.mk.inj hrun).1

theorem keep_error {chain : Chain} {body : Content}
    (hrun : (engine.keep path chain body).run.run w = (.error h, v)) : h = .overflow := by
  unfold Engine.keep at hrun
  split at hrun
  · obtain ⟨files, -, hkeep⟩ := engine.keepOnDisk_cases path chain body w
    cases (Prod.mk.inj (hkeep.symm.trans hrun)).1
  · next cache ttl hbackend =>
      rcases hkeep : (cache.keep ttl path.text body).run.run w.cache with ⟨outcome, c⟩
      by_cases hrange : outcome = .error .overflow
      · subst hrange
        have hoverflow := (Engine.run_keepInStore_overflow hkeep).symm.trans hrun
        exact (Except.error.inj (Prod.mk.inj hoverflow).1).symm
      · cases (Prod.mk.inj ((Engine.run_keepInStore_of_ne hkeep hrange).symm.trans hrun)).1

theorem not_trueSourceModified_error {file : String} {own : Timestamp} :
    (engine.trueSourceModified file own).run.run w ≠ (.error h, v) := by
  obtain ⟨time, files, hok⟩ :=
    engine.exists_run_trueSourceModified (γ := γ) (κ := κ) file own w.files
  rw [hok w rfl]
  intro hrun
  cases (Prod.mk.inj hrun).1

/-! ### Steps that fail -/

/-- Carrying out a chain fails if the source cannot be read, or if the codec fails. -/
theorem derive_error {source extension : String} {chain : Chain}
    (hrun : (engine.derive source chain extension).run.run w = (.error h, v)) :
    (∃ e t, (engine.files.read source).run.run w.files = (.error e, t) ∧ h = .failed e) ∨
    ∃ content t e l, (engine.files.read source).run.run w.files = (.ok content, t) ∧
      (engine.codec.execute content chain extension).run.run w.codec = (.error e, l) ∧
      h = .failed e := by
  rw [Engine.run_derive] at hrun
  rcases hread : (engine.files.read source).run.run w.files with ⟨e | content, t⟩
  · rw [hread] at hrun
    exact Or.inl ⟨e, t, rfl, (Except.error.inj (Prod.mk.inj hrun).1).symm⟩
  · rw [hread] at hrun
    simp only at hrun
    rcases hexecute : (engine.codec.execute content chain extension).run.run w.codec
      with ⟨e | execution, l⟩
    · rw [hexecute] at hrun
      exact Or.inr ⟨content, t, e, l, rfl, hexecute, (Except.error.inj (Prod.mk.inj hrun).1).symm⟩
    · rw [hexecute] at hrun
      cases (Prod.mk.inj hrun).1

/-- Answering a resolution fails in no other ways. -/
theorem answer_error {r : Resolution} {e : Error}
    (hrun : (engine.answer (engine.keep path) path r).run.run w = (.error (.failed e), v)) :
    (∃ t, (engine.files.read r.file.path).run.run w.files = (.error e, t)) ∨
    ∃ source chain extension content t l, r = .derived source chain extension ∧
      (engine.files.read source.path).run.run w.files = (.ok content, t) ∧
      (engine.codec.execute content chain extension).run.run w.codec = (.error e, l) := by
  cases r with
  | direct file =>
      rw [Engine.answer, run_filing_orFail] at hrun
      rcases hread : (engine.files.read file.path).run.run w.files with ⟨e' | body, t⟩
      · rw [hread] at hrun
        obtain rfl := Halt.failed.inj (Except.error.inj (Prod.mk.inj hrun).1)
        exact Or.inl ⟨t, hread⟩
      · rw [hread] at hrun
        rcases run_bind_error_inv hrun with hmodified | ⟨time, u, -, hserved⟩
        · exact absurd hmodified not_trueSourceModified_error
        · cases (Prod.mk.inj hserved).1
  | derived source chain extension =>
      rw [Engine.answer] at hrun
      rcases run_bind_error_inv hrun with hderive | ⟨body, s, -, hrest⟩
      · rcases derive_error hderive with
          ⟨e', t, hread, he⟩ | ⟨content, t, e', l, hread, hexecute, he⟩
        · obtain rfl := Halt.failed.inj he
          exact Or.inl ⟨t, hread⟩
        · obtain rfl := Halt.failed.inj he
          exact Or.inr ⟨source, chain, extension, content, t, l, rfl, hread, hexecute⟩
      · rcases run_bind_error_inv hrest with hkeep | ⟨_, u, -, hrest⟩
        · cases keep_error hkeep
        · rcases run_bind_error_inv hrest with hmodified | ⟨time, u', -, hserved⟩
          · exact absurd hmodified not_trueSourceModified_error
          · cases (Prod.mk.inj hserved).1

end Steps

/-! ### The error of a request -/

section Requests

variable {φ γ κ η : Type} {engine : Engine φ γ κ η} {raw : String} {w v : World φ γ κ} {e : Error}

/-- The file of what a request found cannot be read. -/
def Engine.Unread (engine : Engine φ γ κ η) (raw : String) (w : World φ γ κ) (e : Error) : Prop :=
  ∃ path r v t, RequestPath.ofRequest raw = .ok path ∧
    (engine.found path).run.run w = (.ok (.inr r), v) ∧
    (engine.files.read r.file.path).run.run v.files = (.error e, t)

/-- Where the error of a request comes from. -/
inductive Engine.Fails (engine : Engine φ γ κ η) (raw : String) (w : World φ γ κ) : Error → Prop
  /-- Its text names no path. -/
  | unnamed {e : Error} (hraw : RequestPath.ofRequest raw = .error e) : Fails engine raw w e
  /-- Nothing is found. -/
  | unresolved {path : RequestPath} {u : Unresolved} {v : World φ γ κ}
      (hraw : RequestPath.ofRequest raw = .ok path)
      (hfound : (engine.found path).run.run w = (.error (.failed u.toError), v)) :
      Fails engine raw w u.toError
  /-- What is found cannot be read. -/
  | unread {e : Error} (hread : engine.Unread raw w e) : Fails engine raw w e
  /-- The chain cannot be carried out on what is read. -/
  | undone {path : RequestPath} {source : FoundFile} {chain : Chain} {extension : String}
      {v : World φ γ κ} {content : Content} {t : φ} {e : Error} {l : κ}
      (hraw : RequestPath.ofRequest raw = .ok path)
      (hfound : (engine.found path).run.run w = (.ok (.inr (.derived source chain extension)), v))
      (hread : (engine.files.read source.path).run.run v.files = (.ok content, t))
      (hexecute : (engine.codec.execute content chain extension).run.run v.codec
        = (.error e, l)) :
      Fails engine raw w e

/-- Every error of a request comes from there. -/
theorem Engine.fails_of_error (hplain : engine.fallbacks.Plain)
    (hrun : (engine.serve raw).run.run w = (.error (.failed e), v)) : engine.Fails raw w e := by
  rw [engine.serve_eq] at hrun
  cases hraw : RequestPath.ofRequest raw with
  | error e' =>
      rw [hraw] at hrun
      obtain rfl := Halt.failed.inj (Except.error.inj (Prod.mk.inj hrun).1)
      exact .unnamed hraw
  | ok path =>
      rw [hraw, run_bind_of_ok (run_orFail_ok w path)] at hrun
      rcases run_bind_error_inv hrun with hfound | ⟨body | r, t, hfound, hanswer⟩
      · obtain ⟨u, rfl⟩ := found_error hplain hfound
        exact .unresolved hraw hfound
      · cases (Prod.mk.inj hanswer).1
      · rcases answer_error hanswer with
          ⟨s, hread⟩ | ⟨source, chain, extension, content, s, l, rfl, hread, hexecute⟩
        · exact .unread ⟨path, r, t, s, hraw, hfound, hread⟩
        · exact .undone hraw hfound hread hexecute

theorem Unresolved.exists_toError (u : Unresolved) : ∃ detail, u.toError = .notFound detail := by
  cases u <;> exact ⟨_, rfl⟩

theorem RequestPath.ofRequest_error (h : RequestPath.ofRequest raw = .error e) :
    (∃ detail, e = .badPath detail) ∨ ∃ detail, e = .notFound detail := by
  unfold RequestPath.ofRequest at h
  cases hparse : RequestPath.parse raw with
  | ok path =>
      rw [hparse] at h
      cases h
  | error fault =>
      rw [hparse] at h
      obtain rfl := Except.error.inj h
      cases fault with
      | nul | absolute | parent => exact Or.inl ⟨_, rfl⟩
      | empty => exact Or.inr ⟨_, rfl⟩

/-- An error as a read reports it: the file is missing, or the operation failed. -/
def Error.OfRead (e : Error) : Prop :=
  (∃ detail, e = .notFound detail) ∨ ∃ detail, e = .other detail

/-- The kinds of the errors of a request, if the codec reports errors of its own and reads report
theirs. -/
theorem Engine.Fails.kind (hfails : engine.Fails raw w e)
    (hcodec : engine.codec.FailsIn fun e => ∃ detail, e = .codec detail)
    (hread : ∀ name s, Ends Error.OfRead (fun _ => True) ((engine.files.read name).run.run s).1) :
    (∃ detail, e = .badPath detail ∧ RequestPath.ofRequest raw = .error (.badPath detail)) ∨
      (∃ detail, e = .notFound detail) ∨ (∃ detail, e = .codec detail) ∨
      ∃ detail, e = .other detail ∧ engine.Unread raw w (.other detail) := by
  cases hfails with
  | unnamed hraw =>
      rcases RequestPath.ofRequest_error hraw with ⟨detail, rfl⟩ | hnotFound
      · exact Or.inl ⟨detail, rfl, hraw⟩
      · exact Or.inr (Or.inl hnotFound)
  | @unresolved _ u => exact Or.inr (Or.inl u.exists_toError)
  | unread hunread =>
      obtain ⟨path, r, v, t, -, -, hcall⟩ := id hunread
      have hends := hread r.file.path v.files
      rw [hcall] at hends
      rcases hends with hnotFound | ⟨detail, rfl⟩
      · exact Or.inr (Or.inl hnotFound)
      · exact Or.inr (Or.inr (Or.inr ⟨detail, rfl, hunread⟩))
  | @undone path source chain extension v content t e l hraw hfound hread hexecute =>
      have hends := hcodec.execute content chain extension v.codec
      rw [hexecute] at hends
      exact Or.inr (Or.inr (Or.inl hends))

end Requests

/-! ### The answer to a request that failed -/

theorem Http.Response.status_ofStatus (status : Nat) (notFound : Option Asset) :
    (Response.ofStatus status notFound).status = status := by
  unfold Response.ofStatus
  cases notFound with
  | none => rfl
  | some asset =>
      simp only
      split <;> rfl

/-- A site answers a request that failed with the status of the error. -/
theorem Http.Site.run_handle_failed {φ γ κ η : Type} {site : Site φ γ κ η} {target : Target}
    {raw : String} {w v : World φ γ κ} {e : Error} (hroute : Route.ofTarget target = .serve raw)
    (hrun : (site.engine.serve raw).run.run w = (.error (.failed e), v)) (now : Timestamp)
    {method : String} (hmethod : method = "GET" ∨ method = "HEAD") :
    ∃ response, (site.handle now method target).run w = (some response, v) ∧
      response.status = e.status := by
  have hget : (site.get now target).run w = (some (.ofStatus e.status site.notFound), v) := by
    unfold Site.get
    rw [hroute]
    change (site.respond now ((site.engine.serve raw).run.run w).1,
      ((site.engine.serve raw).run.run w).2) = _
    rw [hrun]
    rfl
  rcases hmethod with rfl | rfl
  · exact ⟨_, hget, Response.status_ofStatus _ _⟩
  · refine ⟨(Response.ofStatus e.status site.notFound).headOnly, ?_, Response.status_ofStatus _ _⟩
    change (((site.get now target).run w).1.map Response.headOnly, ((site.get now target).run w).2)
      = _
    rw [hget]
    rfl

/-- In either mode, and whichever writes, removals and calls to the store fail, a request that fails
does so for one of the reasons of `Engine.Fails`. It is refused for its path exactly if its text is.
Otherwise there is no file for it, or the codec failed, or the file that it found cannot be read,
which is the one case in which the server answers with a failure of its own. -/
theorem failures_recovered {φ γ κ η : Type} {engine : Engine φ γ κ η} {raw : String}
    {w v : World φ γ κ} {e : Error} (hplain : engine.fallbacks.Plain)
    (hcodec : engine.codec.FailsIn fun e => ∃ detail, e = .codec detail)
    (hread : ∀ name s, Ends Error.OfRead (fun _ => True) ((engine.files.read name).run.run s).1)
    (hrun : (engine.serve raw).run.run w = (.error (.failed e), v)) :
    engine.Fails raw w e ∧
    ((∃ detail, e = .badPath detail) ↔
      ∃ detail, RequestPath.ofRequest raw = .error (.badPath detail)) ∧
    ((∃ detail, e = .badPath detail) ∨ (∃ detail, e = .notFound detail) ∨
      (∃ detail, e = .codec detail) ∨ (∃ detail, e = .other detail) ∧ engine.Unread raw w e) ∧
    ∀ (site : Site φ γ κ η) (target : Target) (now : Timestamp) (method : String),
      site.engine = engine → Route.ofTarget target = .serve raw →
      method = "GET" ∨ method = "HEAD" →
      ∃ response, (site.handle now method target).run w = (some response, v) ∧
        (response.status = 400 ↔ ∃ detail, e = .badPath detail) ∧
        (response.status = 500 ↔ engine.Unread raw w e ∧ e.isNotFound = false) ∧
        (response.status = 400 ∨ response.status = 404 ∨ response.status = 500) := by
  have hfails := Engine.fails_of_error hplain hrun
  have hkind := hfails.kind hcodec hread
  refine ⟨hfails, ⟨?_, ?_⟩, ?_, fun site target now method hsite hroute hmethod => ?_⟩
  · intro ⟨detail, he⟩
    subst he
    rcases hkind with ⟨_, he, hraw⟩ | ⟨_, he⟩ | ⟨_, he⟩ | ⟨_, he, -⟩
    · exact ⟨_, hraw⟩
    all_goals cases he
  · intro ⟨detail, hraw⟩
    have hunnamed := (Engine.run_serve_unnamed hraw w).symm.trans hrun
    exact ⟨detail, (Halt.failed.inj (Except.error.inj (Prod.mk.inj hunnamed).1)).symm⟩
  · rcases hkind with ⟨detail, rfl, -⟩ | hnotFound | hcodec | ⟨detail, rfl, hunread⟩
    · exact Or.inl ⟨detail, rfl⟩
    · exact Or.inr (Or.inl hnotFound)
    · exact Or.inr (Or.inr (Or.inl hcodec))
    · exact Or.inr (Or.inr (Or.inr ⟨⟨detail, rfl⟩, hunread⟩))
  · subst hsite
    obtain ⟨response, hhandle, hstatus⟩ := Site.run_handle_failed hroute hrun now hmethod
    refine ⟨response, hhandle, ?_⟩
    rw [hstatus]
    rcases hkind with ⟨detail, rfl, hraw⟩ | ⟨detail, rfl⟩ | ⟨detail, rfl⟩ | ⟨detail, rfl, hunread⟩
    · have hnamed : ¬ site.engine.Unread raw w (.badPath detail) := by
        intro ⟨path, _, _, _, hpath, _⟩
        cases hraw.symm.trans hpath
      simp [Error.status, hnamed]
    · simp [Error.status, Error.isNotFound]
    · simp [Error.status, Error.isNotFound]
    · simp [Error.status, Error.isNotFound, hunread]

/-- A photo that cannot be read is a failure of the server, also where nothing can be written. -/
theorem failures_recovered_refused_read :
    let refusals : Refusals := fun _ operation _ =>
      if operation = .remove then none else some (.other "input/output error")
    let site : Site RecordedFiles Unit Codec.Sketch.Record ByteArray :=
      ⟨⟨RecordedFiles.fileSystem refusals, Codec.Sketch.codec, .builtIn, .disk⟩, 0, none⟩
    let photo : StoredFile := ⟨.text "photo", .epoch, .epoch⟩
    let w : World RecordedFiles Unit Codec.Sketch.Record :=
      ⟨⟨⟨Catalog.empty.insert "a.jpg" photo, .epoch⟩, []⟩, (), #[], ⟨1, 0⟩⟩
    ∃ response v, (site.handle .epoch "GET" (.path "/a_q1.jpg")).run w = (some response, v) ∧
      response.status = 500 := by
  intro refusals site photo w
  have hread : ∀ name s,
      Ends Error.OfRead (fun _ => True) ((site.engine.files.read name).run.run s).1 := by
    intro name s
    have hrun := RecordedFiles.run_attempt refusals .read name (MemoryFiles.read name) s
    change (site.engine.files.read name).run.run s = _ at hrun
    rw [hrun]
    exact Or.inr ⟨_, rfl⟩
  have hother : (match ((site.engine.serve "a_q1.jpg").run.run w).1 with
      | .error h => some h
      | .ok _ => none) = some (.failed (.other "input/output error")) := by decide +kernel
  rcases hrun : (site.engine.serve "a_q1.jpg").run.run w with ⟨h | served, v⟩
  · rw [hrun] at hother
    obtain rfl := Option.some.inj hother
    have hplain : site.engine.fallbacks.Plain := Fallbacks.plain_builtIn
    obtain ⟨-, -, hkind, hhandle⟩ :=
      failures_recovered hplain (Codec.Sketch.failsIn fun detail => ⟨detail, rfl⟩) hread hrun
    obtain ⟨response, hresponse, -, hstatus, -⟩ :=
      hhandle site (.path "/a_q1.jpg") .epoch "GET" rfl (by decide +kernel) (Or.inl rfl)
    refine ⟨response, v, hresponse, hstatus.2 ⟨?_, rfl⟩⟩
    rcases hkind with ⟨_, he⟩ | ⟨_, he⟩ | ⟨_, he⟩ | ⟨-, hunread⟩
    · cases he
    · cases he
    · cases he
    · exact hunread
  · rw [hrun] at hother
    cases hother

end Rendition

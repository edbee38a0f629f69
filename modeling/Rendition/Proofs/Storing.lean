import Rendition.Proofs.Serving

/-!
# Rendition.Proofs.Storing

What a request in store mode can do, said once. A request looks its path up. If the store has
something it is the answer; otherwise the path is answered from files, which is what it comes to
without a store (`Engine.unkept`), and a derivative is handed to the store. The cases are those of
`ServesFromStore`, for any files, codec and store (`Engine.serves_from_store`).
-/

namespace Rendition

open Time EngineM

/-! ### Calls on a store -/

section Calls

variable {φ γ κ α β : Type} (w : World φ γ κ)

@[simp] theorem run_caching (m : CacheM γ α) :
    (caching m : EngineM φ γ κ (Except Halt α)).run.run w
      = (.ok (m.run.run w.cache).1, { w with cache := (m.run.run w.cache).2 }) := rfl

/-- A call on the store whose error is ignored. -/
theorem run_caching_orIgnore (m : CacheM γ α) (k : Option α → EngineM φ γ κ β) :
    (caching m >>= fun outcome => orIgnore outcome >>= k).run.run w
      = match m.run.run w.cache with
        | (.ok a, c) => (k (some a)).run.run { w with cache := c }
        | (.error (.failed _), c) => (k none).run.run { w with cache := c }
        | (.error .overflow, c) => (.error .overflow, { w with cache := c }) := by
  rw [run_bind, run_caching]
  rcases m.run.run w.cache with ⟨(_ | _) | _, c⟩ <;> rfl

end Calls

namespace Cache

variable {γ : Type} (cache : Cache γ)

/-- Gives a key a content, and then a deadline. -/
def keep (ttl : Duration) (key : String) (body : Content) : CacheM γ Unit := do
  cache.set key body
  cache.expire key ttl

/-- A lookup that finds nothing, or that fails. -/
def Misses (key : String) (c c' : γ) : Prop :=
  ∃ outcome, (cache.get key).run.run c = (outcome, c') ∧
    (outcome = .ok none ∨ ∃ e, outcome = .error (.failed e))

end Cache

/-! ### Requests in store mode -/

namespace Engine

variable {φ γ κ η : Type} (engine : Engine φ γ κ η)

/-- The answer to a path from files, with a way to keep what is made. -/
def answered (keep : Chain → Content → EngineM φ γ κ Unit) (path : RequestPath) :
    EngineM φ γ κ Served := do
  let resolution ← engine.resolved path
  engine.answer keep path resolution

/-- The answer to a path from files, which is kept nowhere. -/
def unkept (path : RequestPath) : EngineM φ γ κ Served :=
  engine.answered (fun _ _ => pure ()) path

end Engine

/-- What serving a path from a store comes to, and what it does to the store. -/
inductive ServesFromStore {φ γ κ η : Type} (engine : Engine φ γ κ η) (cache : Cache γ)
    (ttl : Duration) (path : RequestPath) (w : World φ γ κ) : Except Halt Served → γ → Prop
  /-- The store has it. -/
  | hit {c : γ} {body : Content}
      (hget : (cache.get path.text).run.run w.cache = (.ok (some body), c)) :
      ServesFromStore engine cache ttl path w (.ok (Engine.served path body none .cached)) c
  /-- The lookup leaves the range of the clock. -/
  | untimely {c : γ} (hget : (cache.get path.text).run.run w.cache = (.error .overflow, c)) :
      ServesFromStore engine cache ttl path w (.error .overflow) c
  /-- The store does not have it, and the answer is a file or none. -/
  | unkept {c : γ} {outcome : Except Error Served} (hmiss : cache.Misses path.text w.cache c)
      (hanswer : ((engine.unkept path).run.run { w with cache := c }).1 = outcome.mapError .failed)
      (hfile : ∀ served, outcome = .ok served → served.origin = .file) :
      ServesFromStore engine cache ttl path w (outcome.mapError .failed) c
  /-- The store does not have it, and what is made is handed to the store. -/
  | made {c c' : γ} {served : Served} {outcome : Except Halt Unit}
      (hmiss : cache.Misses path.text w.cache c)
      (hanswer : ((engine.unkept path).run.run { w with cache := c }).1 = .ok served)
      (horigin : served.origin = .derived)
      (hkeep : (cache.keep ttl path.text served.body).run.run c = (outcome, c'))
      (hrange : outcome ≠ .error .overflow) :
      ServesFromStore engine cache ttl path w (.ok served) c'
  /-- The store does not have it, and keeping what is made leaves the range of the clock. -/
  | overdue {c c' : γ} {served : Served} (hmiss : cache.Misses path.text w.cache c)
      (hanswer : ((engine.unkept path).run.run { w with cache := c }).1 = .ok served)
      (hkeep : (cache.keep ttl path.text served.body).run.run c = (.error .overflow, c')) :
      ServesFromStore engine cache ttl path w (.error .overflow) c'

namespace Engine

section Store

variable {φ γ κ η : Type} {engine : Engine φ γ κ η} {cache : Cache γ} {ttl : Duration}

/-- Looking for the true source of a file neither fails nor uses the store. -/
theorem exists_run_trueSourceModified (file : String) (own : Timestamp) (s : φ) :
    ∃ time files, ∀ w : World φ γ κ, w.files = s →
      (engine.trueSourceModified file own).run.run w = (.ok time, { w with files := files }) := by
  unfold trueSourceModified
  cases RequestPath.ofRequest file with
  | error e =>
      refine ⟨own, s, fun w hw => ?_⟩
      subst hw
      rfl
  | ok path =>
      let levels := (ancestry engine.files.stat engine.fallbacks path).run s
      refine ⟨(levels.1.getLast?.map (·.stat.modified)).getD own, levels.2, fun w hw => ?_⟩
      subst hw
      rfl

/-- What answering a resolution has to do with the way in which derivatives are kept: nothing, or a
derivative is made and kept, and there is an answer if that does not end the request. -/
theorem answer_keep_cases (path : RequestPath) (r : Resolution) (w : World φ γ κ) :
    (∃ (outcome : Except Error Served) (v : World φ γ κ), v.cache = w.cache ∧
      (∀ served, outcome = .ok served → served.origin = .file) ∧
      ∀ keep, (engine.answer keep path r).run.run w = (outcome.mapError .failed, v)) ∨
    ∃ chain body time, ∃ v : World φ γ κ, v.cache = w.cache ∧
      ∀ (keep : Chain → Content → EngineM φ γ κ Unit) (outcome : Except Halt Unit)
        (u : World φ γ κ), (keep chain body).run.run v = (outcome, u) → u.files = v.files →
        ((engine.answer keep path r).run.run w).1
            = outcome.map (fun _ => served path body (some time) .derived) ∧
          ((engine.answer keep path r).run.run w).2.cache = u.cache := by
  cases r with
  | direct found =>
      refine Or.inl ?_
      simp only [answer, run_filing_orFail]
      rcases (engine.files.read found.path).run.run w.files with ⟨e | body, t⟩
      · exact ⟨.error e, { w with files := t }, rfl, by simp, fun _ => rfl⟩
      · obtain ⟨time, files, hrun⟩ := engine.exists_run_trueSourceModified (γ := γ) (κ := κ)
          found.path found.stat.modified t
        refine ⟨.ok (served path body (some time) .file), { w with files := files }, rfl,
          fun served hserved => ?_, fun _ => ?_⟩
        · obtain rfl := Except.ok.inj hserved
          rfl
        · simp only
          rw [run_bind, hrun _ rfl]
          rfl
  | derived source chain extension =>
      simp only [answer, run_bind, run_derive]
      rcases (engine.files.read source.path).run.run w.files with ⟨e | content, t⟩
      · exact Or.inl ⟨.error e, { w with files := t }, rfl, by simp, fun _ => rfl⟩
      · simp only
        rcases (engine.codec.execute content chain extension).run.run w.codec
          with ⟨e | execution, l⟩
        · exact Or.inl ⟨.error e, { w with files := t, codec := l }, rfl, by simp, fun _ => rfl⟩
        · obtain ⟨time, files, hrun⟩ := engine.exists_run_trueSourceModified (γ := γ) (κ := κ)
            source.path source.stat.modified t
          refine Or.inr ⟨chain, execution.result, time, { w with files := t, codec := l }, rfl,
            fun keep outcome u hkeep hfiles => ?_⟩
          simp only [hkeep]
          cases outcome with
          | error h => exact ⟨rfl, rfl⟩
          | ok _ =>
              simp only [hrun u hfiles]
              exact ⟨rfl, rfl⟩

/-- The same of the answer to a path. -/
theorem answered_cases (path : RequestPath) (w : World φ γ κ) :
    (∃ (outcome : Except Error Served) (v : World φ γ κ), v.cache = w.cache ∧
      (∀ served, outcome = .ok served → served.origin = .file) ∧
      ∀ keep, (engine.answered keep path).run.run w = (outcome.mapError .failed, v)) ∨
    ∃ chain body time, ∃ v : World φ γ κ, v.cache = w.cache ∧
      ∀ (keep : Chain → Content → EngineM φ γ κ Unit) (outcome : Except Halt Unit)
        (u : World φ γ κ), (keep chain body).run.run v = (outcome, u) → u.files = v.files →
        ((engine.answered keep path).run.run w).1
            = outcome.map (fun _ => served path body (some time) .derived) ∧
          ((engine.answered keep path).run.run w).2.cache = u.cache := by
  obtain ⟨outcome, files, hrun⟩ := engine.exists_run_resolved path w
  simp only [answered, run_bind, hrun]
  cases outcome with
  | error u =>
      exact Or.inl ⟨.error u.toError, { w with files := files }, rfl, by simp, fun _ => rfl⟩
  | ok r => exact engine.answer_keep_cases path r { w with files := files }

/-- Handing a derivative to the store does not fail, -/
theorem run_keepInStore_of_ne {path : RequestPath} {body : Content} {w : World φ γ κ}
    {outcome : Except Halt Unit} {c : γ}
    (hkeep : (cache.keep ttl path.text body).run.run w.cache = (outcome, c))
    (hrange : outcome ≠ .error .overflow) :
    (keepInStore cache ttl path body).run.run w = (.ok (), { w with cache := c }) := by
  have hrun := run_caching_orIgnore w (cache.keep ttl path.text body)
    fun _ => (pure () : EngineM φ γ κ Unit)
  change (keepInStore cache ttl path body).run.run w = _ at hrun
  rw [hrun, hkeep]
  rcases outcome with (_ | _) | _
  · rfl
  · exact absurd rfl hrange
  · rfl

/-- unless it leaves the range of the clock. -/
theorem run_keepInStore_overflow {path : RequestPath} {body : Content} {w : World φ γ κ} {c : γ}
    (hkeep : (cache.keep ttl path.text body).run.run w.cache = (.error .overflow, c)) :
    (keepInStore cache ttl path body).run.run w = (.error .overflow, { w with cache := c }) := by
  have hrun := run_caching_orIgnore w (cache.keep ttl path.text body)
    fun _ => (pure () : EngineM φ γ κ Unit)
  change (keepInStore cache ttl path body).run.run w = _ at hrun
  rw [hrun, hkeep]

/-- A path that the store does not have is served from files, and what is made is handed to the
store. -/
theorem serves_missed {path : RequestPath} {w v : World φ γ κ}
    (hmiss : cache.Misses path.text w.cache v.cache) (hv : v = { w with cache := v.cache }) :
    let run := (engine.answered (fun _ body => keepInStore cache ttl path body) path).run.run v
    ServesFromStore engine cache ttl path w run.1 run.2.cache := by
  intro run
  rcases engine.answered_cases path v with
    ⟨outcome, u, hcache, hfile, hrun⟩ | ⟨chain, body, time, u, hcache, hrun⟩
  · have hunkept : ((engine.unkept path).run.run v).1 = outcome.mapError .failed := by
      rw [unkept, hrun]
    have hrun' : run = _ := hrun _
    rw [hrun', hcache]
    exact .unkept hmiss (hv ▸ hunkept) hfile
  · have hunkept : ((engine.unkept path).run.run v).1
        = .ok (served path body (some time) .derived) :=
      (hrun (fun _ _ => pure ()) (.ok ()) u rfl rfl).1
    rcases hstored : (cache.keep ttl path.text body).run.run v.cache with ⟨outcome, c⟩
    have hstored' : (cache.keep ttl path.text body).run.run u.cache = (outcome, c) :=
      hcache ▸ hstored
    by_cases hrange : outcome = .error .overflow
    · subst hrange
      obtain ⟨houtcome, hcache'⟩ := hrun (fun _ body => keepInStore cache ttl path body) _ _
        (run_keepInStore_overflow hstored') rfl
      rw [houtcome, hcache']
      exact .overdue hmiss (hv ▸ hunkept) hstored
    · obtain ⟨houtcome, hcache'⟩ := hrun (fun _ body => keepInStore cache ttl path body) _ _
        (run_keepInStore_of_ne hstored' hrange) rfl
      rw [houtcome, hcache']
      exact .made hmiss (hv ▸ hunkept) rfl hstored hrange

/-- In store mode a request for a path serves it from the store. -/
theorem serves_from_store (hstore : engine.backend = .store cache ttl) {raw : String}
    {path : RequestPath} (hraw : RequestPath.ofRequest raw = .ok path) (w : World φ γ κ) :
    ServesFromStore engine cache ttl path w ((engine.serve raw).run.run w).1
      ((engine.serve raw).run.run w).2.cache := by
  have hserve : (engine.serve raw).run.run w
      = (engine.serveFromStore cache ttl path).run.run w := by
    rw [serve, hraw, run_bind_of_ok (run_orFail_ok w path)]
    simp only [hstore]
  rw [hserve, serveFromStore, run_caching_orIgnore]
  rcases hget : (cache.get path.text).run.run w.cache with ⟨(e | _) | _ | body, c⟩
  · exact serves_missed ⟨_, hget, Or.inr ⟨e, rfl⟩⟩ rfl
  · exact .untimely hget
  · exact serves_missed ⟨_, hget, Or.inl rfl⟩ rfl
  · exact .hit hget

end Store

end Engine

end Rendition

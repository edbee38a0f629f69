import Rendition.Proofs.Agreement
import Rendition.Proofs.Retention

/-!
# Rendition.Proofs.Transparency

A store does not show. While the files stay as they are, whoever asks sees the same answers as
without a store (`store_transparent`), whatever was asked before, however much time has passed and
whichever calls the store refused; the exception is a request that leaves the range of the clock.

By `Remembers` the store answers with the body of an earlier answer to the path. So it is enough
that all answers so far were right: each has the body of the answer that is due (`Engine.Due`).
-/

namespace Rendition

open Time EngineM

/-! ### Files in store mode -/

section Files

variable {φ γ κ α β : Type} {held : φ → Catalog StoredFile}

/-- The step leaves the files as they are. -/
def KeepsFiles (held : φ → Catalog StoredFile) (m : EngineM φ γ κ α) : Prop :=
  ∀ w, held (m.run.run w).2.files = held w.files

namespace KeepsFiles

theorem pure (a : α) : KeepsFiles held (Pure.pure a : EngineM φ γ κ α) :=
  fun _ => rfl

theorem bind {m : EngineM φ γ κ α} {k : α → EngineM φ γ κ β} (hm : KeepsFiles held m)
    (hk : ∀ a, KeepsFiles held (k a)) : KeepsFiles held (m >>= k) := by
  intro w
  have hw := hm w
  rw [run_bind]
  rcases hrun : m.run.run w with ⟨e | a, v⟩
  · rwa [hrun] at hw
  · rw [hrun] at hw
    exact (hk a v).trans hw

theorem orFail (outcome : Except Error α) :
    KeepsFiles held (EngineM.orFail outcome : EngineM φ γ κ α) := by
  cases outcome <;> exact fun _ => rfl

theorem orIgnore (outcome : Except Halt α) :
    KeepsFiles held (EngineM.orIgnore outcome : EngineM φ γ κ (Option α)) := by
  rcases outcome with (_ | _) | _ <;> exact fun _ => rfl

theorem caching (m : CacheM γ α) : KeepsFiles held (EngineM.caching m : EngineM φ γ κ _) :=
  fun _ => rfl

theorem coding (m : CodecM κ α) : KeepsFiles held (EngineM.coding m : EngineM φ γ κ _) :=
  fun _ => rfl

theorem looking {m : StateM φ α} (hm : ∀ s, held (m.run s).2 = held s) :
    KeepsFiles held (EngineM.looking m : EngineM φ γ κ α) :=
  fun w => hm w.files

end KeepsFiles

variable {η : Type} {engine : Engine φ γ κ η}

/-- A request in store mode leaves the files as they are, whatever comes of its reads, as long as
these do. -/
theorem Engine.keepsFiles_serve_of_read {cache : Cache γ} {ttl : Duration}
    (hstore : engine.backend = .store cache ttl)
    (hstat : ∀ path, Looks (fun s => (held s).look) (engine.files.stat path) fun look => look path)
    (hreads : ∀ name s, held ((engine.files.read name).run.run s).2 = held s)
    (raw : String) : KeepsFiles held (engine.serve raw) := by
  have hread : ∀ name, KeepsFiles held (filing (engine.files.read name) : EngineM φ γ κ _) :=
    fun name => .looking (hreads name)
  have hmodified : ∀ file own, KeepsFiles held (engine.trueSourceModified file own) := by
    intro file own
    unfold trueSourceModified
    cases RequestPath.ofRequest file with
    | error e => exact .pure _
    | ok path =>
        refine .bind (.looking fun s => ?_) fun _ => .pure _
        rw [looks_ancestry hstat path s]
  have hkeep : ∀ path body, KeepsFiles held (keepInStore cache ttl path body : EngineM φ γ κ _) :=
    fun path body => .bind (.caching _) fun outcome => .bind (.orIgnore outcome) fun _ => .pure _
  have hanswer : ∀ path r, KeepsFiles held
      (engine.answer (fun _ body => keepInStore cache ttl path body) path r) := by
    intro path r
    cases r with
    | direct found =>
        exact .bind (hread _) fun _ => .bind (.orFail _) fun _ =>
          .bind (hmodified _ _) fun _ => .pure _
    | derived source chain extension =>
        refine .bind (.bind (hread _) fun _ => .bind (.orFail _) fun _ => .bind (.coding _) fun _ =>
          .bind (.orFail _) fun _ => .pure _) fun body => ?_
        exact .bind (hkeep path body) fun _ => .bind (hmodified _ _) fun _ => .pure _
  have hresolved : ∀ path, KeepsFiles held (engine.resolved path) := by
    intro path
    refine .bind (.looking fun s => ?_) fun _ => .orFail _
    rw [looks_resolve hstat path s]
  refine .bind (.orFail _) fun path => ?_
  rw [hstore]
  refine .bind (.caching _) fun outcome => .bind (.orIgnore outcome) fun found => ?_
  rcases found with _ | _ | body
  · exact .bind (hresolved path) fun r => hanswer path r
  · exact .bind (hresolved path) fun r => hanswer path r
  · exact .pure _

/-- So it does if what reads and looks show is what is held. -/
theorem Engine.keepsFiles_serve {cache : Cache γ} {ttl : Duration}
    (hstore : engine.backend = .store cache ttl) (hshows : engine.files.Shows held)
    (raw : String) : KeepsFiles held (engine.serve raw) :=
  engine.keepsFiles_serve_of_read hstore hshows.stat (fun name s => (hshows.read name s).2) raw

end Files

/-! ### Answers along a run -/

section Run

variable {φ κ η : Type} {engine : Engine φ RecordedCache κ η} {refusals : CacheRefusals}
  {ttl : Duration} {held : φ → Catalog StoredFile} {log : List Answer} {clock : Clock}
  {w₀ w : World φ RecordedCache κ} {raw : String} {path : RequestPath} {k : κ}

/-- Every answer so far has the body of the answer that is due to its path. -/
def Engine.Due (engine : Engine φ RecordedCache κ η) (files : Catalog StoredFile) (k : κ)
    (log : List Answer) : Prop :=
  ∀ a ∈ log, ∃ due, engine.answerFor files k a.path = .ok due ∧ a.served.body = due.body

variable (hstore : engine.backend = .store (RecordedCache.cache refusals) ttl)
  (hshows : engine.files.Shows held) (hcodec : engine.codec.Deterministic)

include hstore hshows hcodec

/-- After right answers, a request gets the answer that is due, or its body from the store. -/
theorem Engine.Due.run_serve (hdue : engine.Due (held w.files) k log)
    (hremembers : Remembers ttl log w.cache.memory) (hraw : RequestPath.ofRequest raw = .ok path)
    (hrange : ((engine.serve raw).run.run w).1 ≠ .error .overflow) :
    ((engine.serve raw).run.run w).1
        = (engine.answerFor (held w.files) k path).mapError .failed ∨
      ∃ due, engine.answerFor (held w.files) k path = .ok due ∧
        ((engine.serve raw).run.run w).1 = .ok (Engine.served path due.body none .cached) := by
  rcases (Engine.serves_from_store hstore hraw w).answer_cases hshows hrange with
    ⟨body, c, hget, houtcome⟩ | houtcome
  · obtain ⟨-, a, hlast, -, rfl⟩ :=
      (hremembers.lookup_eq_some_iff (RecordedCache.lookup hget) (by simp)).1 rfl
    obtain ⟨hmem, rfl, -⟩ := mem_of_lastKept hlast
    obtain ⟨due, hanswer, hbody⟩ := hdue a hmem
    exact Or.inr ⟨due, hanswer, hbody ▸ houtcome⟩
  · rw [engine.answerFor_congr hcodec k] at houtcome
    exact Or.inl houtcome

/-- Along a run that does not change the files all answers are right. -/
theorem Engine.Caching.due (hempty : w₀.cache = .withClock clock)
    (hrun : engine.Caching (fun _ _ => False) w₀ log w) (k : κ) :
    held w.files = held w₀.files ∧ engine.Due (held w₀.files) k log := by
  have hkeeps : ∀ {w w' : World φ RecordedCache κ} {raw outcome},
      (engine.serve raw).run.run w = (outcome, w') → held w'.files = held w.files := by
    intro w w' raw outcome hserve
    have hkept := Engine.keepsFiles_serve hstore hshows raw w
    rwa [hserve] at hkept
  induction hrun with
  | start => exact ⟨rfl, fun a hmem => by cases hmem⟩
  | @answered log w w' hrun raw path served hraw hserve ih =>
      obtain ⟨hfiles, hdue⟩ := ih
      refine ⟨(hkeeps hserve).trans hfiles, fun a hmem => ?_⟩
      rcases List.mem_cons.1 hmem with rfl | hmem
      · rw [← hfiles] at hdue ⊢
        rcases hdue.run_serve hstore hshows hcodec (hrun.remembers hstore hempty) hraw
          (by simp [hserve]) with houtcome | ⟨due, hanswer, houtcome⟩
        · rw [hserve] at houtcome
          exact ⟨served, eq_ok_of_mapError houtcome.symm, rfl⟩
        · rw [hserve] at houtcome
          obtain rfl := Except.ok.inj houtcome
          exact ⟨due, hanswer, rfl⟩
      · exact hdue a hmem
  | failed _ hserve ih => exact ⟨(hkeeps hserve).trans ih.1, ih.2⟩
  | advanced _ _ ih => exact ih
  | edited _ hedit => exact hedit.elim

end Run

/-! ### Without a store -/

section Unstored

variable {φ γ κ η : Type} (engine : Engine φ γ κ η)

theorem exists_of_bind_eq_ok {ε α β : Type} {x : Except ε α} {f : α → Except ε β} {b : β}
    (h : (x >>= f) = .ok b) : ∃ a, x = .ok a ∧ f a = .ok b := by
  cases x with
  | error e => cases h
  | ok a => exact ⟨a, rfl, h⟩

/-- What of an answer can be seen whether it comes from a store or not. -/
def Served.shown (s : Served) : Content × Option String × String :=
  (s.body, s.etag?, s.contentType)

/-- The same parts with a store that never has anything. -/
def Engine.unstored (ttl : Duration) : Engine φ Unit κ η where
  files := engine.files
  codec := engine.codec
  fallbacks := engine.fallbacks
  backend := .store .missing ttl

variable {engine} {held : φ → Catalog StoredFile}

/-- The answer to a path has the type that the path names. -/
theorem Engine.contentType_of_answerFor {files : Catalog StoredFile} {k : κ} {path : RequestPath}
    {due : Served} (h : engine.answerFor files k path = .ok due) :
    due.contentType = MediaType.ofExtension path.extension := by
  obtain ⟨r, -, h⟩ := exists_of_bind_eq_ok h
  cases r with
  | direct found =>
      obtain ⟨body, -, h⟩ := exists_of_bind_eq_ok h
      obtain rfl := Except.ok.inj h
      rfl
  | derived source chain extension =>
      obtain ⟨content, -, h⟩ := exists_of_bind_eq_ok h
      obtain ⟨execution, -, h⟩ := exists_of_bind_eq_ok h
      obtain rfl := Except.ok.inj h
      rfl

theorem Engine.run_serve_unstored (hshows : engine.files.Shows held) {ttl : Duration} {raw : String}
    {path : RequestPath} (hraw : RequestPath.ofRequest raw = .ok path) (w : World φ Unit κ) :
    (((engine.unstored ttl).serve raw).run.run w).1
      = (engine.answerFor (held w.files) w.codec path).mapError .failed := by
  have hstore : (engine.unstored ttl).backend = .store .missing ttl := rfl
  have hmiss : Cache.missing.Misses path.text w.cache w.cache := ⟨_, rfl, Or.inl rfl⟩
  have hserves := Engine.serves_from_store hstore hraw w
  have hrange : (((engine.unstored ttl).serve raw).run.run w).1 ≠ .error .overflow := by
    intro hoverflow
    generalize ((engine.unstored ttl).serve raw).run.run w = run at hserves hoverflow
    obtain ⟨outcome, v⟩ := run
    cases hserves with
    | hit | made => cases hoverflow
    | untimely hget => cases hget
    | @unkept _ outcome => cases outcome <;> cases hoverflow
    | overdue _ _ hkeep => cases hkeep
  exact Engine.run_serve_missed hstore hshows hraw hmiss hrange

end Unstored

/-- Whatever was asked before, however much time has passed and whichever calls the store refused,
while the files stay as they are: a request that does not leave the range of the clock succeeds
exactly if it succeeds without a store, with the same body, validator and type, or fails with the
same error. -/
theorem store_transparent {κ η : Type} {engine : Engine MemoryFiles RecordedCache κ η}
    {refusals : CacheRefusals} {ttl : Duration} {clock : Clock}
    {w₀ w : World MemoryFiles RecordedCache κ} {log : List Answer}
    (hfiles : engine.files = MemoryFiles.fileSystem) (hcodec : engine.codec.Deterministic)
    (hstore : engine.backend = .store (RecordedCache.cache refusals) ttl)
    (hempty : w₀.cache = .withClock clock)
    (hrun : engine.Caching (fun _ _ => False) w₀ log w) (raw : String)
    (hrange : ((engine.serve raw).run.run w).1 ≠ .error .overflow) (k : κ) (s : Sampler) :
    ((engine.serve raw).run.run w).1.map Served.shown
      = (((engine.unstored ttl).serve raw).run.run ⟨w₀.files, (), k, s⟩).1.map Served.shown := by
  have hshows : engine.files.Shows MemoryFiles.files := hfiles ▸ MemoryFiles.shows
  obtain ⟨hheld, hdue⟩ := hrun.due hstore hshows hcodec hempty k
  cases hraw : RequestPath.ofRequest raw with
  | error e =>
      rw [Engine.run_serve_unnamed hraw, Engine.run_serve_unnamed hraw]
  | ok path =>
      rw [Engine.run_serve_unstored hshows hraw]
      rw [← hheld] at hdue
      rcases hdue.run_serve hstore hshows hcodec (hrun.remembers hstore hempty) hraw hrange with
        houtcome | ⟨due, hanswer, houtcome⟩
      · rw [houtcome, hheld]
      · rw [houtcome, ← hheld, hanswer]
        simp only [Except.map, Except.mapError, Served.shown,
          Engine.contentType_of_answerFor hanswer]
        rfl

open Sketching in
/-- The store took a derivative of the photo and refused its deadline. Two seconds later, twice the
span that derivatives are to stay, the store still answers, and what it answers is what is due. -/
theorem store_transparent_undated :
    ∃ log w, (storing undated).Caching (fun _ _ => False) photoAlone log w ∧
      (((storing undated).serve "a_q1.jpg").run.run w).1.toOption.map (·.origin) = some .cached ∧
      (((storing undated).serve "a_q1.jpg").run.run w).1.map Served.shown
        = ((((storing undated).unstored (.ofSeconds 1)).serve "a_q1.jpg").run.run
            ⟨photoAlone.files, (), #[], ⟨0, 0⟩⟩).1.map Served.shown := by
  let w := later (.ofSeconds 2) (photoRequested undated)
  obtain ⟨made, -, hfirst⟩ := exists_caching_requested undated (fun _ _ => False)
    (by decide +kernel)
  have hrun : (storing undated).Caching (fun _ _ => False) photoAlone _ w :=
    caching_later hfirst (.ofSeconds 2) (by decide +kernel)
  have hcached : (((storing undated).serve "a_q1.jpg").run.run w).1.toOption.map (·.origin)
      = some .cached := by
    decide +kernel
  refine ⟨_, w, hrun, hcached, store_transparent rfl Codec.Sketch.deterministic_codec rfl rfl hrun
    "a_q1.jpg" (fun hoverflow => ?_) #[] ⟨0, 0⟩⟩
  simp [hoverflow, Except.toOption] at hcached

end Rendition

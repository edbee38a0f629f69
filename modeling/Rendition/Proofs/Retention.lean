import Rendition.Proofs.Caching
import Rendition.Proofs.Derivation

/-!
# Rendition.Proofs.Retention

How old an answer from a store can be. The store is in memory, refuses whichever calls a pattern
says, and starts empty; files may change at any time. Under a path it has the body of the last
answer that it took (`lastKept`), which was made from files. A body and its deadline are taken by
two calls. If both go through, the entry is gone once its span has passed, and later answers from
the store are younger than that. If the second is refused, the entry has no deadline and is an
answer at every later time (`stored_answer_iff`).

`Remembers` ties the store to the answers. A lookup can only drop an entry whose deadline has come,
and a moment that has come stays past, as the clock does not go back.
-/

namespace Rendition

open Time

/-! ### What the store has -/

/-- The last answer to a path whose body the store took. -/
def lastKept (log : List Answer) (path : RequestPath) : Option Answer :=
  log.find? fun a => a.path = path ∧ a.isKept

/-- The entry that an answer leaves in the store. -/
def Answer.entry (ttl : Duration) (a : Answer) : CacheEntry where
  content := a.served.body
  deadline := if a.isDated then some (a.moment + ttl.nanos) else none

theorem Answer.isExpired_entry {ttl : Duration} {a : Answer} {now : Nat} :
    (a.entry ttl).isExpired now = false ↔ (a.isDated = true → now < a.moment + ttl.nanos) := by
  unfold entry CacheEntry.isExpired
  cases a.isDated <;> simp

theorem lastKept_cons {a : Answer} {log : List Answer} {path : RequestPath} :
    lastKept (a :: log) path
      = if a.path = path ∧ a.isKept = true then some a else lastKept log path := by
  unfold lastKept
  rw [List.find?_cons]
  by_cases h : a.path = path ∧ a.isKept = true <;> simp [h]

theorem mem_of_lastKept {log : List Answer} {path : RequestPath} {a : Answer}
    (h : lastKept log path = some a) : a ∈ log ∧ a.path = path ∧ a.isKept = true :=
  ⟨List.mem_of_find?_eq_some h, by simpa using List.find?_some h⟩

/-- What a store has, going by the answers so far. -/
structure Remembers (ttl : Duration) (log : List Answer) (memory : MemoryCache) : Prop where
  /-- It took only what was made. -/
  derived : ∀ a ∈ log, a.isKept = true → a.served.origin = .derived
  past : ∀ a ∈ log, a.moment ≤ memory.clock.reading
  nothing : ∀ path, lastKept log path = none → memory.entries.get? path.text = none
  /-- Under a path it has the last body that it took, or has dropped it in due time. -/
  last : ∀ path a, lastKept log path = some a →
    memory.entries.get? path.text = some (a.entry ttl) ∨
    memory.entries.get? path.text = none ∧ (a.entry ttl).isExpired memory.clock.reading = true

namespace Remembers

variable {ttl : Duration} {log : List Answer} {memory memory' : MemoryCache}

theorem withClock (clock : Clock) : Remembers ttl [] (.withClock clock) where
  derived _ hmem := by cases hmem
  past _ hmem := by cases hmem
  nothing _ _ := rfl
  last _ _ h := by cases h

/-- Time passes. -/
theorem later (h : Remembers ttl log memory) (hentries : memory'.entries = memory.entries)
    (hclock : memory.clock.reading ≤ memory'.clock.reading) : Remembers ttl log memory' where
  derived := h.derived
  past a hmem := Nat.le_trans (h.past a hmem) hclock
  nothing path hnone := hentries ▸ h.nothing path hnone
  last path a hlast := by
    rw [hentries]
    exact (h.last path a hlast).imp id fun ⟨hget, hexpired⟩ =>
      ⟨hget, CacheEntry.isExpired_mono hclock hexpired⟩

/-- An answer is given whose body the store did not take. -/
theorem unkept (h : Remembers ttl log memory) {a : Answer} (hkept : a.isKept = false)
    (hmoment : a.moment = memory.clock.reading) : Remembers ttl (a :: log) memory where
  derived b hmem hb := by
    rcases List.mem_cons.1 hmem with rfl | hmem
    · simp [hkept] at hb
    · exact h.derived b hmem hb
  past b hmem := by
    rcases List.mem_cons.1 hmem with rfl | hmem
    · exact Nat.le_of_eq hmoment
    · exact h.past b hmem
  nothing path hnone := by
    rw [lastKept_cons, if_neg (by simp [hkept])] at hnone
    exact h.nothing path hnone
  last path b hlast := by
    rw [lastKept_cons, if_neg (by simp [hkept])] at hlast
    exact h.last path b hlast

/-- An answer is given whose body the store took. -/
theorem kept (h : Remembers ttl log memory) {a : Answer} (hkept : a.isKept = true)
    (hderived : a.served.origin = .derived) (hmoment : a.moment = memory.clock.reading)
    (hclock : memory'.clock = memory.clock)
    (hentries : ∀ key, memory'.entries.get? key
      = if key = a.path.text then some (a.entry ttl) else memory.entries.get? key) :
    Remembers ttl (a :: log) memory' where
  derived b hmem hb := by
    rcases List.mem_cons.1 hmem with rfl | hmem
    · exact hderived
    · exact h.derived b hmem hb
  past b hmem := by
    rw [hclock]
    rcases List.mem_cons.1 hmem with rfl | hmem
    · exact Nat.le_of_eq hmoment
    · exact h.past b hmem
  nothing path hnone := by
    rw [lastKept_cons] at hnone
    split at hnone
    · cases hnone
    · next hother =>
        have hne : path.text ≠ a.path.text := fun heq =>
          hother ⟨(RequestPath.text_injective heq).symm, hkept⟩
        rw [hentries, if_neg hne]
        exact h.nothing path hnone
  last path b hlast := by
    rw [lastKept_cons] at hlast
    split at hlast
    · next hsame =>
        obtain rfl := Option.some.inj hlast
        rw [hentries, hsame.1, if_pos rfl]
        exact Or.inl rfl
    · next hother =>
        have hne : path.text ≠ a.path.text := fun heq =>
          hother ⟨(RequestPath.text_injective heq).symm, hkept⟩
        rw [hentries, if_neg hne, hclock]
        exact h.last path b hlast

end Remembers

/-! ### Calls on the store -/

section Calls

variable {ttl : Duration} {refusals : CacheRefusals} {log : List Answer} {path : RequestPath}
  {s t : RecordedCache}

/-- A lookup drops an entry at most, once its deadline has come. -/
theorem Remembers.lookup {outcome : Except Halt (Option Content)}
    (h : Remembers ttl log s.memory) (hlookup : Lookup refusals path.text s outcome t) :
    Remembers ttl log t.memory := by
  cases hlookup with
  | refused | untimely | absent | live => exact h
  | expired _ hget hexpired =>
      refine ⟨h.derived, h.past, fun other hnone => ?_, fun other a hlast => ?_⟩
      · simp only [Catalog.get?_erase]
        split
        · rfl
        · exact h.nothing other hnone
      · simp only [Catalog.get?_erase]
        split
        · next hother =>
            refine Or.inr ⟨rfl, ?_⟩
            rcases h.last other a hlast with hentry | ⟨hnone, -⟩
            · rw [hother, hget] at hentry
              rw [← Option.some.inj hentry]
              exact hexpired
            · simp [hother, hget] at hnone
        · exact h.last other a hlast

/-- A lookup is recorded and does not move the clock. -/
theorem Lookup.recorded {key : String} {outcome : Except Halt (Option Content)}
    (h : Lookup refusals key s outcome t) :
    t.memory.clock = s.memory.clock ∧
      t.calls = ⟨.get, key, refusals s.calls .get key⟩ :: s.calls := by
  cases h with
  | refused hrefusal => exact ⟨rfl, by rw [hrefusal]⟩
  | untimely hrefusal => exact ⟨rfl, by rw [hrefusal]⟩
  | absent hrefusal => exact ⟨rfl, by rw [hrefusal]⟩
  | expired hrefusal => exact ⟨rfl, by rw [hrefusal]⟩
  | live hrefusal => exact ⟨rfl, by rw [hrefusal]⟩

/-- A store that is asked for a path answers with the last body that it took for it, if the deadline
of that has not come. -/
theorem Remembers.lookup_eq_some_iff {outcome : Except Halt (Option Content)} {body : Content}
    (h : Remembers ttl log s.memory) (hlookup : Lookup refusals path.text s outcome t)
    (hrange : outcome ≠ .error .overflow) :
    outcome = .ok (some body) ↔ refusals s.calls .get path.text = none ∧
      ∃ a, lastKept log path = some a ∧
        (a.entry ttl).isExpired s.memory.clock.reading = false ∧ a.served.body = body := by
  -- With no entry there, none was taken, or its deadline has come.
  have hgone : s.memory.entries.get? path.text = none → ∀ a, lastKept log path = some a →
      (a.entry ttl).isExpired s.memory.clock.reading = true := by
    intro hnone a hlast
    rcases h.last path a hlast with hentry | ⟨-, hexpired⟩
    · simp [hnone] at hentry
    · exact hexpired
  have hthere : ∀ entry, s.memory.entries.get? path.text = some entry →
      ∃ a, lastKept log path = some a ∧ entry = a.entry ttl := by
    intro entry hget
    cases hlast : lastKept log path with
    | none => simp [h.nothing path hlast] at hget
    | some a =>
        rcases h.last path a hlast with hentry | ⟨hnone, -⟩
        · exact ⟨a, rfl, Option.some.inj (hget.symm.trans hentry)⟩
        · simp [hnone] at hget
  cases hlookup with
  | refused hrefusal => simp [hrefusal]
  | untimely => exact absurd rfl hrange
  | absent hrefusal hget =>
      refine iff_of_false (by simp) ?_
      rintro ⟨-, a, hlast, hlive, -⟩
      simp [hgone hget a hlast] at hlive
  | expired hrefusal hget hexpired =>
      obtain ⟨a, hlast, rfl⟩ := hthere _ hget
      refine iff_of_false (by simp) ?_
      rintro ⟨-, b, hlast', hlive, -⟩
      obtain rfl := Option.some.inj (hlast.symm.trans hlast')
      simp [hexpired] at hlive
  | live hrefusal hget hlive =>
      obtain ⟨a, hlast, rfl⟩ := hthere _ hget
      have hbody : (a.entry ttl).content = a.served.body := rfl
      simp [hrefusal, hlast, hlive, hbody]

/-- An answer after a lookup, of which the store takes nothing. -/
theorem Remembers.looked {found : Except Halt (Option Content)} {served : Served}
    (h : Remembers ttl log s.memory) (hlookup : Lookup refusals path.text s found t) :
    Remembers ttl (⟨path, served, s.memory.clock.reading, s.callsSince t⟩ :: log) t.memory := by
  obtain ⟨hclock, hcalls⟩ := hlookup.recorded
  refine (h.lookup hlookup).unkept ?_ (by rw [hclock])
  rw [show s.callsSince t = [_] from RecordedCache.callsSince_eq hcalls]
  rfl

/-- An answer that was made after a lookup and is handed to the store. -/
theorem Remembers.handed {found : Except Halt (Option Content)} {outcome : Except Halt Unit}
    {served : Served} {u : RecordedCache} (h : Remembers ttl log s.memory)
    (hlookup : Lookup refusals path.text s found t)
    (hkeep : Keep refusals ttl path.text served.body t outcome u)
    (hrange : outcome ≠ .error .overflow) (hderived : served.origin = .derived) :
    Remembers ttl (⟨path, served, s.memory.clock.reading, s.callsSince u⟩ :: log) u.memory := by
  obtain ⟨hclock, hcalls⟩ := hlookup.recorded
  have hleft := h.lookup hlookup
  -- The calls that each case records, behind the lookup.
  have hsince : ∀ memory calls, s.callsSince ⟨memory, calls ++ t.calls⟩
      = calls ++ [⟨.get, path.text, refusals s.calls .get path.text⟩] := fun _ _ =>
    RecordedCache.callsSince_eq (by rw [hcalls, ← List.append_cons])
  rw [← hclock]
  generalize hmade : s.callsSince u = made
  cases hkeep with
  | refused =>
      obtain rfl : made = [_, _] := hmade.symm.trans (hsince _ [_])
      exact hleft.unkept rfl rfl
  | lasting =>
      obtain rfl : made = [_, _, _] := hmade.symm.trans (hsince _ [_, _])
      exact hleft.kept rfl hderived rfl rfl fun key => Catalog.get?_insert ..
  | overdue => exact absurd rfl hrange
  | dated _ _ hentries =>
      obtain rfl : made = [_, _, _] := hmade.symm.trans (hsince _ [_, _])
      exact hleft.kept rfl hderived rfl rfl hentries

end Calls

/-! ### Runs of requests -/

section Run

variable {φ κ η : Type} {engine : Engine φ RecordedCache κ η} {refusals : CacheRefusals}
  {ttl : Duration} {path : RequestPath} {log : List Answer} {edits : φ → φ → Prop}
  {w₀ w : World φ RecordedCache κ} {clock : Clock}

/-- A request adds its answer, if there is one, to what the store goes by. -/
theorem Remembers.serves {outcome : Except Halt Served} {c : RecordedCache}
    (h : Remembers ttl log w.cache.memory)
    (hserves : ServesFromStore engine (RecordedCache.cache refusals) ttl path w outcome c) :
    (∀ served, outcome = .ok served → Remembers ttl
      (⟨path, served, w.cache.memory.clock.reading, w.cache.callsSince c⟩ :: log) c.memory) ∧
    ∀ e, outcome = .error (.failed e) → Remembers ttl log c.memory := by
  cases hserves with
  | hit hget => exact ⟨fun _ _ => h.looked (RecordedCache.lookup hget), nofun⟩
  | untimely | overdue => exact ⟨fun _ heq => (nomatch heq), fun _ heq => nomatch heq⟩
  | unkept hmiss =>
      obtain ⟨found, hget, -⟩ := hmiss
      have hlookup := RecordedCache.lookup hget
      exact ⟨fun _ _ => h.looked hlookup, fun _ _ => h.lookup hlookup⟩
  | made hmiss _ horigin hkeep hrange =>
      obtain ⟨found, hget, -⟩ := hmiss
      refine ⟨fun served hserved => ?_, nofun⟩
      obtain rfl := Except.ok.inj hserved
      exact h.handed (RecordedCache.lookup hget) (RecordedCache.keep hkeep) hrange horigin

/-- Along a run the store remembers the answers. -/
theorem Engine.Caching.remembers
    (hstore : engine.backend = .store (RecordedCache.cache refusals) ttl)
    (hempty : w₀.cache = .withClock clock) (hrun : engine.Caching edits w₀ log w) :
    Remembers ttl log w.cache.memory := by
  induction hrun with
  | start =>
      rw [hempty]
      exact .withClock clock
  | @answered log w w' _ raw path served hraw hserve ih =>
      have hserves := Engine.serves_from_store hstore hraw w
      rw [hserve] at hserves
      exact (ih.serves hserves).1 served rfl
  | @failed log w w' _ raw e hserve ih =>
      cases hraw : RequestPath.ofRequest raw with
      | error e =>
          rw [Engine.run_serve_unnamed hraw] at hserve
          obtain rfl := (Prod.mk.inj hserve).2
          exact ih
      | ok path =>
          have hserves := Engine.serves_from_store hstore hraw w
          rw [hserve] at hserves
          exact (ih.serves hserves).2 e rfl
  | @advanced log w _ span memory hadvance ih =>
      rw [MemoryCache.run_advance] at hadvance
      obtain ⟨hinRange, rfl⟩ := Prod.mk.inj hadvance
      refine ih.later rfl (Clock.reading_le_advance ?_)
      split at hinRange
      · assumption
      · cases hinRange
  | edited _ _ ih => exact ih

/-- Whatever was requested before, however the files changed and whichever calls the store refused:
a request is answered from the store exactly if its lookup is not refused, the store took a body for
its path, and the last one that it took has no deadline or a deadline that has not come. That body
is the answer, and it was made from files at an earlier request for the path. -/
theorem stored_answer_iff (hstore : engine.backend = .store (RecordedCache.cache refusals) ttl)
    (hempty : w₀.cache = .withClock clock) (hrun : engine.Caching edits w₀ log w) {raw : String}
    (hraw : RequestPath.ofRequest raw = .ok path)
    (hrange : ((engine.serve raw).run.run w).1 ≠ .error .overflow) (served : Served) :
    (((engine.serve raw).run.run w).1 = .ok served ∧ served.origin = .cached ↔
      refusals w.cache.calls .get path.text = none ∧ ∃ a, lastKept log path = some a ∧
        (a.isDated = true → w.cache.memory.clock.reading < a.moment + ttl.nanos) ∧
        served = Engine.served path a.served.body none .cached) ∧
    ∀ a, lastKept log path = some a → a ∈ log ∧ a.path = path ∧ a.served.origin = .derived ∧
      a.moment ≤ w.cache.memory.clock.reading := by
  have hremembers := hrun.remembers hstore hempty
  refine ⟨?_, fun a hlast => ?_⟩
  · have hserves := Engine.serves_from_store hstore hraw w
    -- After a lookup that found nothing there is no body to answer with.
    have hnothing : ∀ {c}, (RecordedCache.cache refusals).Misses path.text w.cache c →
        refusals w.cache.calls .get path.text = none → ∀ a, lastKept log path = some a →
          ¬ (a.isDated = true → w.cache.memory.clock.reading < a.moment + ttl.nanos) := by
      rintro c ⟨found, hget, hfound⟩ hrefusal a hlast hlive
      have hsome := (hremembers.lookup_eq_some_iff (RecordedCache.lookup hget)
        (by rcases hfound with rfl | ⟨e, rfl⟩ <;> simp)).2
        ⟨hrefusal, a, hlast, Answer.isExpired_entry.2 hlive, rfl⟩
      rcases hfound with rfl | ⟨e, rfl⟩ <;> cases hsome
    generalize ((engine.serve raw).run.run w).1 = outcome at hserves hrange ⊢
    generalize ((engine.serve raw).run.run w).2.cache = c at hserves
    cases hserves with
    | @hit c body hget =>
        obtain ⟨hrefusal, a, hlast, hlive, rfl⟩ :=
          (hremembers.lookup_eq_some_iff (RecordedCache.lookup hget) (by simp)).1 rfl
        rw [Answer.isExpired_entry] at hlive
        constructor
        · rintro ⟨hserved, -⟩
          exact ⟨hrefusal, a, hlast, hlive, (Except.ok.inj hserved).symm⟩
        · rintro ⟨-, b, hlast', -, rfl⟩
          obtain rfl := Option.some.inj (hlast.symm.trans hlast')
          exact ⟨rfl, rfl⟩
    | untimely | overdue => exact absurd rfl hrange
    | unkept hmiss _ hfile =>
        refine iff_of_false ?_ fun ⟨hrefusal, a, hlast, hlive, _⟩ =>
          hnothing hmiss hrefusal a hlast hlive
        rintro ⟨hserved, horigin⟩
        have hfile' := hfile served (eq_ok_of_mapError hserved)
        simp [hfile'] at horigin
    | made hmiss _ hderived =>
        refine iff_of_false ?_ fun ⟨hrefusal, a, hlast, hlive, _⟩ =>
          hnothing hmiss hrefusal a hlast hlive
        rintro ⟨hserved, horigin⟩
        obtain rfl := Except.ok.inj hserved
        simp [hderived] at horigin
  · obtain ⟨hmem, hpath, hkept⟩ := mem_of_lastKept hlast
    exact ⟨hmem, hpath, hremembers.derived a hmem hkept, hremembers.past a hmem⟩

end Run

/-! ### A photo in a store -/

namespace Sketching

/-- Sketches on files in memory, with the built-in table. Derivatives stay in the store for a
second. -/
def storing (refusals : CacheRefusals) :
    Engine MemoryFiles RecordedCache Codec.Sketch.Record ByteArray where
  files := MemoryFiles.fileSystem
  codec := Codec.Sketch.codec
  fallbacks := .builtIn
  backend := .store (RecordedCache.cache refusals) (.ofSeconds 1)

/-- A photo, and nothing in the store. -/
def photoAlone : World MemoryFiles RecordedCache Codec.Sketch.Record where
  files := (photo ⟨0, 0⟩).files
  cache := .withClock (.startingAt 0)
  codec := #[]
  sampler := ⟨0, 0⟩

/-- The world after a request for a derivative of the photo. -/
def photoRequested (refusals : CacheRefusals) :
    World MemoryFiles RecordedCache Codec.Sketch.Record :=
  (((storing refusals).serve "a_q1.jpg").run.run photoAlone).2

/-- A world after some time. -/
def later (span : Duration) (w : World MemoryFiles RecordedCache Codec.Sketch.Record) :
    World MemoryFiles RecordedCache Codec.Sketch.Record :=
  { w with cache.memory.clock := (w.cache.memory.clock.advance span).2 }

/-- A world in which the photo is another one. -/
def edited (w : World MemoryFiles RecordedCache Codec.Sketch.Record) :
    World MemoryFiles RecordedCache Codec.Sketch.Record :=
  { w with files := w.files.insert "a.jpg" ⟨.text "B", instant 3, instant 3⟩ }

/-- The store that refuses no call. -/
def accepting : CacheRefusals := fun _ _ _ => none

/-- The store that takes bodies and refuses deadlines. -/
def undated : CacheRefusals := fun _ operation _ =>
  if operation = .expire then some (UnreliableCache.failure .expire) else none

/-- The answer to the first request is made from the photo. -/
theorem exists_caching_requested (refusals : CacheRefusals)
    (edits : MemoryFiles → MemoryFiles → Prop)
    (hderived : (((storing refusals).serve "a_q1.jpg").run.run photoAlone).1.toOption.map (·.origin)
      = some .derived) :
    ∃ served, served.origin = .derived ∧ (storing refusals).Caching edits photoAlone
      [⟨.single "a_q1.jpg" (by decide), served, 0,
        photoAlone.cache.callsSince (photoRequested refusals).cache⟩]
      (photoRequested refusals) := by
  rcases hserve : ((storing refusals).serve "a_q1.jpg").run.run photoAlone with ⟨e | served, w⟩
  · simp [hserve, Except.toOption] at hderived
  · have hw : photoRequested refusals = w := by
      rw [photoRequested, hserve]
    rw [hw]
    refine ⟨served, by simpa [hserve, Except.toOption] using hderived, ?_⟩
    exact .answered .start (RequestPath.ofRequest_single _ (by decide)) hserve

theorem caching_later {refusals : CacheRefusals} {edits : MemoryFiles → MemoryFiles → Prop}
    {log : List Answer} {w : World MemoryFiles RecordedCache Codec.Sketch.Record}
    (h : (storing refusals).Caching edits photoAlone log w) (span : Duration)
    (hrange : (w.cache.memory.clock.advance span).1 = true) :
    (storing refusals).Caching edits photoAlone log (later span w) :=
  h.advanced (by rw [MemoryCache.run_advance, if_pos hrange])

end Sketching

section InTime

open Sketching

/-- A derivative of the photo was made, and the store took it with a deadline. Half a second later
the next request is answered from the store. -/
theorem stored_answer_iff_in_time :
    ∃ log w served, (storing accepting).Caching (fun _ _ => False) photoAlone log w ∧
      w.cache.memory.clock.reading = 500000000 ∧
      (((storing accepting).serve "a_q1.jpg").run.run w).1 = .ok served ∧
      served.origin = .cached := by
  let w := later ⟨500000000, by decide⟩ (photoRequested accepting)
  have hreading : w.cache.memory.clock.reading = 500000000 := by decide +kernel
  have hyoung : w.cache.memory.clock.reading < 0 + (Duration.ofSeconds 1).nanos := by decide +kernel
  have hcalls : photoAlone.cache.callsSince (photoRequested accepting).cache
      = [⟨.expire, "a_q1.jpg", none⟩, ⟨.set, "a_q1.jpg", none⟩, ⟨.get, "a_q1.jpg", none⟩] := by
    decide +kernel
  obtain ⟨made, -, hfirst⟩ := exists_caching_requested accepting (fun _ _ => False)
    (by decide +kernel)
  rw [hcalls] at hfirst
  have hrun : (storing accepting).Caching (fun _ _ => False) photoAlone _ w :=
    caching_later hfirst _ (by decide +kernel)
  have hok : (((storing accepting).serve "a_q1.jpg").run.run w).1.toOption.isSome = true := by
    decide +kernel
  have hrange : (((storing accepting).serve "a_q1.jpg").run.run w).1 ≠ .error .overflow := by
    intro hoverflow
    simp [hoverflow, Except.toOption] at hok
  obtain ⟨hserved, horigin⟩ := (stored_answer_iff rfl rfl hrun
    (RequestPath.ofRequest_single "a_q1.jpg" (by decide)) hrange _).1.2
    ⟨rfl, _, rfl, fun _ => hyoung, rfl⟩
  exact ⟨_, w, _, hrun, hreading, hserved, horigin⟩

/-- The store takes a derivative of the photo and refuses its deadline. The photo is edited, and two
seconds pass, twice the span that derivatives are to stay. The next request is answered from the
store with what the old photo had been made into. -/
theorem undated_body_outlives_span :
    ∃ log w served, (storing undated).Caching (fun _ _ => True) photoAlone log w ∧
      (((storing undated).serve "a_q1.jpg").run.run w).1 = .ok served ∧
      served.origin = .cached ∧ served.body.firstByte? = some 'A'.toNat.toUInt8 ∧
      ∀ a ∈ log, a.moment + (Duration.ofSeconds 1).nanos ≤ w.cache.memory.clock.reading := by
  let w := later (.ofSeconds 2) (edited (photoRequested undated))
  obtain ⟨made, -, hfirst⟩ := exists_caching_requested undated (fun _ _ => True) (by decide +kernel)
  have hrun : (storing undated).Caching (fun _ _ => True) photoAlone _ w :=
    caching_later (hfirst.edited trivial) (.ofSeconds 2) (by decide +kernel)
  have hold : 0 + (Duration.ofSeconds 1).nanos ≤ w.cache.memory.clock.reading := by decide +kernel
  have hanswer : (((storing undated).serve "a_q1.jpg").run.run w).1.toOption.map
      (fun served => (served.origin, served.body.firstByte?))
        = some (.cached, some 'A'.toNat.toUInt8) := by
    decide +kernel
  rcases hserve : (((storing undated).serve "a_q1.jpg").run.run w).1 with e | served
  · simp [hserve, Except.toOption] at hanswer
  · simp only [hserve, Except.toOption, Option.map_some, Option.some.injEq, Prod.mk.injEq]
      at hanswer
    refine ⟨_, w, served, hrun, hserve, hanswer.1, hanswer.2, fun a hmem => ?_⟩
    obtain rfl := List.mem_singleton.1 hmem
    exact hold

end InTime

end Rendition

import Rendition.Cache.Unreliable
import Rendition.Proofs.Storing

/-!
# Rendition.Proofs.Caching

Runs of requests in store mode. `RecordedCache` is a store in memory that keeps a record of the
calls on it and refuses whichever calls a pattern says, so a lookup, or either of the two calls that
keep a content, can fail at any point. What a lookup comes to is said by `Lookup` and what keeping
comes to by `Keep`; where a clock does not fail, these are all the ways there are.

`Engine.Caching` are the runs: requests, moves of the clock, and changes of the files from outside.
None of its steps leaves the range of the clock. A run lists the answers that were given, latest
first, each with the moment and the calls on the store that were made for it.
-/

namespace Rendition

open Time

/-! ### The store in memory -/

namespace Clock

/-- The moment that a clock stands at, whether it can be shown or not. -/
def reading (c : Clock) : Nat :=
  c.start + if c.jammed then 0 else c.moved.nanos

theorem eq_of_moment? {nanos moment : Nat} (h : moment? nanos = some moment) : moment = nanos := by
  unfold moment? at h
  split at h
  · exact (Option.some.inj h).symm
  · cases h

theorem eq_reading {c : Clock} {now : Nat} (h : c.now? = some now) : now = c.reading :=
  eq_of_moment? h

/-- A clock that was moved without an overflow does not stand earlier than before. -/
theorem reading_le_advance {c : Clock} {span : Duration} (h : (c.advance span).1 = true) :
    c.reading ≤ (c.advance span).2.reading := by
  unfold advance at *
  by_cases hjammed : c.jammed = true
  · refine Nat.le_of_eq ?_
    rw [if_pos hjammed]
  · rw [if_neg hjammed] at *
    cases hmoved : c.moved.add? span with
    | none => simp [hmoved] at h
    | some moved =>
        have hnanos := Duration.nanos_of_add? hmoved
        simp only [reading, hjammed]
        simp only [Bool.false_eq_true, if_false]
        omega

end Clock

/-- Of an entry whose deadline has come this stays true. -/
theorem CacheEntry.isExpired_mono {entry : CacheEntry} {now later : Nat} (h : now ≤ later)
    (hexpired : entry.isExpired now = true) : entry.isExpired later = true := by
  unfold isExpired at *
  cases hdeadline : entry.deadline with
  | none => simp [hdeadline] at hexpired
  | some deadline =>
      simp only [hdeadline, decide_eq_true_eq] at *
      exact Nat.le_trans hexpired h

namespace MemoryCache

variable (m : MemoryCache)

theorem run_now :
    now.run.run m = (match m.clock.now? with
      | none => .error .overflow
      | some now => .ok now, m) := by
  have hget : (MonadState.get : CacheM MemoryCache MemoryCache).run.run m = (.ok m, m) := rfl
  unfold now
  rw [run_bind_of_ok hget]
  cases m.clock.now? <;> rfl

theorem run_get (key : String) :
    (get key).run.run m = match m.clock.now? with
      | none => (.error .overflow, m)
      | some now =>
        match m.entries.get? key with
        | none => (.ok none, m)
        | some entry =>
          if entry.isExpired now then (.ok none, { m with entries := m.entries.erase key })
          else (.ok (some entry.content), m) := by
  have hstate : (MonadState.get : CacheM MemoryCache MemoryCache).run.run m = (.ok m, m) := rfl
  rw [get, run_bind, run_now]
  cases m.clock.now? with
  | none => rfl
  | some now =>
      simp only
      rw [run_bind, hstate]
      simp only
      cases m.entries.get? key with
      | none => rfl
      | some entry =>
          simp only
          cases entry.isExpired now <;> rfl

theorem run_set (key : String) (body : Content) :
    (set key body).run.run m = (.ok (), { m with entries := m.entries.insert key ⟨body, none⟩ }) :=
  rfl

theorem run_expire (key : String) (ttl : Duration) :
    (expire key ttl).run.run m = match m.clock.now? with
      | none => (.error .overflow, m)
      | some now =>
        match Clock.moment? (now + ttl.nanos) with
        | none => (.error .overflow, m)
        | some deadline =>
          (.ok (), { m with
            entries := m.entries.modify key fun e => { e with deadline := some deadline } }) := by
  rw [expire, run_bind, run_now]
  cases m.clock.now? with
  | none => rfl
  | some now =>
      simp only
      cases Clock.moment? (now + ttl.nanos) <;> rfl

theorem run_advance (span : Duration) :
    (advance span).run.run m
      = (if (m.clock.advance span).1 then .ok () else .error .overflow,
          { m with clock := (m.clock.advance span).2 }) := by
  have hstate : (MonadState.get : CacheM MemoryCache MemoryCache).run.run m = (.ok m, m) := rfl
  rw [advance, run_bind, hstate]
  simp only
  rcases m.clock.advance span with ⟨_ | _, clock⟩ <;> rfl

end MemoryCache

/-! ### A store that refuses calls -/

/-- A call on a store, and the error it was refused with. -/
structure CacheCall where
  operation : CacheOperation
  key : String
  refusal? : Option Error
  deriving DecidableEq

/-- A store in memory with a record of the calls on it, latest first. -/
structure RecordedCache where
  memory : MemoryCache
  calls : List CacheCall

/-- Which calls are refused, given the calls before. -/
abbrev CacheRefusals := (before : List CacheCall) → CacheOperation → (key : String) → Option Error

namespace RecordedCache

variable {α : Type} (refusals : CacheRefusals)

/-- The store without entries, on which no call was made. -/
def withClock (clock : Clock) : RecordedCache := ⟨.withClock clock, []⟩

/-- Records a call and makes it on the store in memory, unless it is refused. -/
def attempt (operation : CacheOperation) (key : String) (m : CacheM MemoryCache α) :
    CacheM RecordedCache α := do
  let s ← get
  let refusal? := refusals s.calls operation key
  let calls := ⟨operation, key, refusal?⟩ :: s.calls
  match refusal? with
  | some e =>
    set { s with calls }
    throw (.failed e)
  | none =>
    let (outcome, memory) := m.run s.memory
    set ({ memory, calls } : RecordedCache)
    match outcome with
    | .ok a => pure a
    | .error h => throw h

/-- The store. -/
def cache : Cache RecordedCache where
  get key := attempt refusals .get key (MemoryCache.get key)
  set key content := attempt refusals .set key (MemoryCache.set key content)
  expire key ttl := attempt refusals .expire key (MemoryCache.expire key ttl)

/-- The calls that were made between two states. -/
def callsSince (before after : RecordedCache) : List CacheCall :=
  after.calls.take (after.calls.length - before.calls.length)

theorem callsSince_eq {before after : RecordedCache} {calls : List CacheCall}
    (h : after.calls = calls ++ before.calls) : callsSince before after = calls := by
  simp [callsSince, h]

/-- Every call is recorded; a refused one does nothing else. -/
theorem run_attempt (operation : CacheOperation) (key : String) (m : CacheM MemoryCache α)
    (s : RecordedCache) :
    (attempt refusals operation key m).run.run s =
      match refusals s.calls operation key with
      | some e => (.error (.failed e), ⟨s.memory, ⟨operation, key, some e⟩ :: s.calls⟩)
      | none => ((m.run.run s.memory).1,
          ⟨(m.run.run s.memory).2, ⟨operation, key, none⟩ :: s.calls⟩) := by
  have hget : (get : CacheM RecordedCache RecordedCache).run.run s = (.ok s, s) := rfl
  rw [attempt, run_bind, hget]
  simp only
  cases refusals s.calls operation key with
  | some e => rfl
  | none =>
      rcases hm : m.run.run s.memory with ⟨_ | _, t⟩
      · change m.run s.memory = _ at hm
        simp only [hm]
        rfl
      · change m.run s.memory = _ at hm
        simp only [hm]
        rfl

end RecordedCache

/-! ### Lookups -/

/-- What a lookup comes to, and what is left of the store. -/
inductive Lookup (refusals : CacheRefusals) (key : String) (s : RecordedCache) :
    Except Halt (Option Content) → RecordedCache → Prop
  | refused {e : Error} (hrefusal : refusals s.calls .get key = some e) :
      Lookup refusals key s (.error (.failed e)) ⟨s.memory, ⟨.get, key, some e⟩ :: s.calls⟩
  /-- The clock is out of range. -/
  | untimely (hrefusal : refusals s.calls .get key = none) (hnow : s.memory.clock.now? = none) :
      Lookup refusals key s (.error .overflow) ⟨s.memory, ⟨.get, key, none⟩ :: s.calls⟩
  | absent (hrefusal : refusals s.calls .get key = none)
      (hget : s.memory.entries.get? key = none) :
      Lookup refusals key s (.ok none) ⟨s.memory, ⟨.get, key, none⟩ :: s.calls⟩
  /-- The deadline has come, and the entry is dropped. -/
  | expired {entry : CacheEntry} (hrefusal : refusals s.calls .get key = none)
      (hget : s.memory.entries.get? key = some entry)
      (hexpired : entry.isExpired s.memory.clock.reading = true) :
      Lookup refusals key s (.ok none)
        ⟨{ s.memory with entries := s.memory.entries.erase key }, ⟨.get, key, none⟩ :: s.calls⟩
  | live {entry : CacheEntry} (hrefusal : refusals s.calls .get key = none)
      (hget : s.memory.entries.get? key = some entry)
      (hlive : entry.isExpired s.memory.clock.reading = false) :
      Lookup refusals key s (.ok (some entry.content)) ⟨s.memory, ⟨.get, key, none⟩ :: s.calls⟩

theorem RecordedCache.lookup {refusals : CacheRefusals} {key : String} {s t : RecordedCache}
    {outcome : Except Halt (Option Content)}
    (h : ((cache refusals).get key).run.run s = (outcome, t)) :
    Lookup refusals key s outcome t := by
  have hrun : ((cache refusals).get key).run.run s = _ :=
    run_attempt refusals .get key (MemoryCache.get key) s
  rw [MemoryCache.run_get, h] at hrun
  obtain ⟨rfl, rfl⟩ := Prod.mk.inj hrun
  cases hrefusal : refusals s.calls .get key with
  | some e => exact .refused hrefusal
  | none =>
      cases hnow : s.memory.clock.now? with
      | none => exact .untimely hrefusal hnow
      | some now =>
          obtain rfl := Clock.eq_reading hnow
          cases hget : s.memory.entries.get? key with
          | none => exact .absent hrefusal hget
          | some entry =>
              cases hexpired : entry.isExpired s.memory.clock.reading with
              | true =>
                  simp only [hexpired, if_true]
                  exact .expired hrefusal hget hexpired
              | false =>
                  simp only [hexpired, Bool.false_eq_true, if_false]
                  exact .live hrefusal hget hexpired

/-! ### Keeping a content -/

/-- What keeping a content comes to, and what is left of the store. -/
inductive Keep (refusals : CacheRefusals) (ttl : Duration) (key : String) (body : Content)
    (s : RecordedCache) : Except Halt Unit → RecordedCache → Prop
  /-- The store refuses the content. -/
  | refused {e : Error} (hset : refusals s.calls .set key = some e) :
      Keep refusals ttl key body s (.error (.failed e))
        ⟨s.memory, ⟨.set, key, some e⟩ :: s.calls⟩
  /-- The store takes the content and refuses the deadline. -/
  | lasting {e : Error} (hset : refusals s.calls .set key = none)
      (hexpire : refusals (⟨.set, key, none⟩ :: s.calls) .expire key = some e) :
      Keep refusals ttl key body s (.error (.failed e))
        ⟨{ s.memory with entries := s.memory.entries.insert key ⟨body, none⟩ },
          ⟨.expire, key, some e⟩ :: ⟨.set, key, none⟩ :: s.calls⟩
  /-- The deadline is out of the range of the clock. -/
  | overdue {t : RecordedCache} : Keep refusals ttl key body s (.error .overflow) t
  /-- The store takes both. -/
  | dated {entries : Catalog CacheEntry} (hset : refusals s.calls .set key = none)
      (hexpire : refusals (⟨.set, key, none⟩ :: s.calls) .expire key = none)
      (hentries : ∀ other, entries.get? other
        = if other = key then some ⟨body, some (s.memory.clock.reading + ttl.nanos)⟩
          else s.memory.entries.get? other) :
      Keep refusals ttl key body s (.ok ())
        ⟨{ s.memory with entries := entries },
          ⟨.expire, key, none⟩ :: ⟨.set, key, none⟩ :: s.calls⟩

theorem RecordedCache.keep {refusals : CacheRefusals} {ttl : Duration} {key : String}
    {body : Content} {s t : RecordedCache} {outcome : Except Halt Unit}
    (h : ((cache refusals).keep ttl key body).run.run s = (outcome, t)) :
    Keep refusals ttl key body s outcome t := by
  have hset : ((cache refusals).set key body).run.run s = _ :=
    run_attempt refusals .set key (MemoryCache.set key body) s
  have hexpire : ∀ t, ((cache refusals).expire key ttl).run.run t = _ :=
    run_attempt refusals .expire key (MemoryCache.expire key ttl)
  rw [Cache.keep, run_bind, hset] at h
  obtain ⟨rfl, rfl⟩ := Prod.mk.inj h.symm
  cases hrefusal : refusals s.calls .set key with
  | some e => exact .refused hrefusal
  | none =>
      simp only [MemoryCache.run_set, hexpire]
      cases hrefusal' : refusals (⟨.set, key, none⟩ :: s.calls) .expire key with
      | some e => exact .lasting hrefusal hrefusal'
      | none =>
          simp only [MemoryCache.run_expire]
          cases hnow : s.memory.clock.now? with
          | none => exact .overdue
          | some now =>
              obtain rfl := Clock.eq_reading hnow
              cases hdeadline : Clock.moment? (s.memory.clock.reading + ttl.nanos) with
              | none =>
                  simp only [hdeadline]
                  exact .overdue
              | some deadline =>
                  obtain rfl := Clock.eq_of_moment? hdeadline
                  simp only [hdeadline]
                  refine .dated hrefusal hrefusal' fun other => ?_
                  simp only [Catalog.get?_modify, Catalog.get?_insert]
                  by_cases hother : other = key <;> simp [hother]

/-! ### Runs of requests -/

/-- An answer that was given: to which path, at which moment of the clock of the store, and with
which calls on the store, latest first. -/
structure Answer where
  path : RequestPath
  served : Served
  moment : Nat
  calls : List CacheCall

namespace Answer

/-- Did the store take the body? -/
def isKept (a : Answer) : Bool :=
  a.calls.any fun call => call.operation = .set ∧ call.refusal? = none

/-- Did the store take a deadline? -/
def isDated (a : Answer) : Bool :=
  a.calls.any fun call => call.operation = .expire ∧ call.refusal? = none

end Answer

/-- The worlds that requests, moves of the clock and changes of the files lead to from a first one,
each with the answers so far, latest first. -/
inductive Engine.Caching {φ κ η : Type} (engine : Engine φ RecordedCache κ η)
    (edits : φ → φ → Prop) (w₀ : World φ RecordedCache κ) :
    List Answer → World φ RecordedCache κ → Prop
  | start : Caching engine edits w₀ [] w₀
  | answered {log : List Answer} {w w' : World φ RecordedCache κ}
      (h : Caching engine edits w₀ log w) {raw : String} {path : RequestPath} {served : Served}
      (hraw : RequestPath.ofRequest raw = .ok path)
      (hserve : (engine.serve raw).run.run w = (.ok served, w')) :
      Caching engine edits w₀
        (⟨path, served, w.cache.memory.clock.reading, w.cache.callsSince w'.cache⟩ :: log) w'
  | failed {log : List Answer} {w w' : World φ RecordedCache κ}
      (h : Caching engine edits w₀ log w) {raw : String} {e : Error}
      (hserve : (engine.serve raw).run.run w = (.error (.failed e), w')) :
      Caching engine edits w₀ log w'
  | advanced {log : List Answer} {w : World φ RecordedCache κ} (h : Caching engine edits w₀ log w)
      {span : Duration} {memory : MemoryCache}
      (hadvance : (MemoryCache.advance span).run.run w.cache.memory = (.ok (), memory)) :
      Caching engine edits w₀ log { w with cache := { w.cache with memory := memory } }
  | edited {log : List Answer} {w : World φ RecordedCache κ} (h : Caching engine edits w₀ log w)
      {files : φ} (hedit : edits w.files files) :
      Caching engine edits w₀ log { w with files := files }

end Rendition

import Rendition.Proofs.Holding

/-!
# Rendition.Proofs.Expiry

Whether it can be noticed that a store in memory drops an entry only when it is asked for, and not
when its deadline comes. `EagerCache` is the store in which an entry vanishes at that moment, and
whose clock has no limit. `EagerCache.Mirrors` ties it to a store in memory: both have the same
entries in sight. All calls keep this but one. A new deadline is given to whatever is in memory, so
an entry that was out of sight but not yet dropped comes back (`MemoryCache.revives`).

`expiry_unobservable_iff` says that this is the only difference there is: as long as no call revives
an entry, all results are those of the eager store, and the first call that does can be noticed by
the lookup that follows it. Lookups thin the store out (`MemoryCache.Thins`), which takes away
entries that could be revived and nothing else, so more lookups never make a difference where there
was none.
-/

namespace Rendition

open Time

/-! ### The eager store -/

namespace Catalog

variable {α : Type}

/-- The names whose value passes a test. -/
def filterValues (c : Catalog α) (test : α → Bool) : Catalog α where
  entries := c.entries.filter (test ·.2)
  nodup := c.nodup.sublist (List.filter_sublist.map _)

@[simp] theorem get?_filterValues (c : Catalog α) (test : α → Bool) (name : String) :
    (c.filterValues test).get? name = (c.get? name).filter test := by
  ext value
  simp [get?_eq_some_iff, Option.filter_eq_some_iff, filterValues]

end Catalog

/-- A store whose entries vanish when their deadline comes, and its moment. -/
structure EagerCache where
  entries : Catalog CacheEntry
  now : Nat

namespace EagerCache

open MemoryCache (Call Result)

/-- The store without entries. -/
def startingAt (start : Nat) : EagerCache := ⟨.empty, start⟩

/-- The store without the entries whose deadline has come. -/
def settled (e : EagerCache) : EagerCache :=
  { e with entries := e.entries.filterValues fun entry => !entry.isExpired e.now }

/-- The result of a call. -/
def result (e : EagerCache) : Call → Result
  | .get key => .found ((e.entries.get? key).map (·.content))
  | .set _ _ | .expire _ _ | .advance _ => .done
  | .length => .count e.entries.entries.length
  | .isEmpty => .verdict e.entries.entries.isEmpty

/-- The store after a call. A deadline is given to a key that is there, and otherwise to none. -/
def after (e : EagerCache) : Call → EagerCache
  | .get _ | .length | .isEmpty => e
  | .set key body => { e with entries := e.entries.insert key ⟨body, none⟩ }
  | .expire key ttl =>
    settled { e with
      entries := e.entries.modify key fun entry =>
        { entry with deadline := some (e.now + ttl.nanos) } }
  | .advance span => settled { e with now := e.now + span.nanos }

/-- The results of calls one after the other. -/
def results : EagerCache → List Call → List Result
  | _, [] => []
  | e, c :: rest => e.result c :: (e.after c).results rest

/-- The store after all of them. -/
def afterAll (e : EagerCache) (calls : List Call) : EagerCache :=
  calls.foldl after e

variable (e : EagerCache)

theorem results_append (front back : List Call) :
    e.results (front ++ back) = e.results front ++ (e.afterAll front).results back := by
  induction front generalizing e with
  | nil => rfl
  | cons c rest ih => exact congrArg (e.result c :: ·) (ih (e.after c))

/-- A key that is not there stays absent until it is set. -/
theorem get?_afterAll_of_none {key : String} {calls : List Call}
    (hnone : e.entries.get? key = none) (hset : ∀ body, .set key body ∉ calls) :
    (e.afterAll calls).entries.get? key = none := by
  induction calls generalizing e with
  | nil => exact hnone
  | cons c rest ih =>
      refine ih (e.after c) ?_ fun body hmem => hset body (List.mem_cons_of_mem c hmem)
      cases c with
      | get _ | length | isEmpty => exact hnone
      | set other body =>
          have hne : key ≠ other := fun heq => hset body (heq ▸ List.mem_cons_self)
          simp [after, hne, hnone]
      | expire other ttl => simp [after, settled, hnone]
      | advance span => simp [after, settled, hnone]

end EagerCache

/-! ### Coming back -/

namespace MemoryCache

variable {m n : MemoryCache}

/-- Does a call give a new deadline to an entry that is in memory though its deadline has come? -/
def revives (m : MemoryCache) : Call → Bool
  | .expire key ttl =>
    decide (0 < ttl.nanos) && (m.entries.get? key).any (·.isExpired m.clock.reading)
  | _ => false

/-- Does one of some calls, made one after the other, do that? -/
def revivesIn : MemoryCache → List Call → Bool
  | _, [] => false
  | m, c :: rest => m.revives c || (m.after c).revivesIn rest

theorem revives_expire_iff {key : String} {ttl : Duration} :
    m.revives (.expire key ttl) = true ↔
      0 < ttl.nanos ∧ ∃ entry, m.entries.get? key = some entry ∧
        entry.isExpired m.clock.reading = true := by
  simp [revives, Option.any_eq_true]

theorem revivesIn_cons {c : Call} {rest : List Call} :
    m.revivesIn (c :: rest) = false ↔
      m.revives c = false ∧ (m.after c).revivesIn rest = false := by
  simp [revivesIn]

theorem revivesIn_append {front back : List Call} {before : List Result} {m₁ : MemoryCache}
    (h : m.Performs front before m₁) :
    m.revivesIn (front ++ back) = false ↔
      m.revivesIn front = false ∧ m₁.revivesIn back = false := by
  induction front generalizing m before with
  | nil =>
      obtain ⟨-, rfl⟩ := performs_nil.1 h
      simp [revivesIn]
  | cons c rest ih =>
      obtain ⟨-, more, -, hrest⟩ := performs_cons.1 h
      rw [List.cons_append, revivesIn_cons, revivesIn_cons, ih hrest, and_assoc]

/-- Of calls that revive an entry, one is the first to do so. -/
theorem exists_first_revival {calls : List Call} {results : List Result}
    (hm : m.Performs calls results n) (h : m.revivesIn calls = true) :
    ∃ front key ttl back before m₁, calls = front ++ .expire key ttl :: back ∧
      m.Performs front before m₁ ∧ m.revivesIn front = false ∧
      m₁.clock.allows (.expire key ttl) = true ∧ m₁.revives (.expire key ttl) = true := by
  induction calls generalizing m results with
  | nil => cases h
  | cons c rest ih =>
      obtain ⟨hallows, more, -, hrest⟩ := performs_cons.1 hm
      cases hc : m.revives c with
      | true =>
          cases c with
          | expire key ttl =>
              exact ⟨[], key, ttl, rest, [], m, rfl, performs_nil.2 ⟨rfl, rfl⟩, rfl, hallows, hc⟩
          | get _ | set _ _ | length | isEmpty | advance _ => cases hc
      | false =>
          have hlater : (m.after c).revivesIn rest = true := by simpa [revivesIn, hc] using h
          obtain ⟨front, key, ttl, back, before, m₁, rfl, hfront, hspared, hallows', hrevives⟩ :=
            ih hrest hlater
          exact ⟨c :: front, key, ttl, back, _, m₁, rfl,
            performs_cons.2 ⟨hallows, before, rfl, hfront⟩, revivesIn_cons.2 ⟨hc, hspared⟩,
            hallows', hrevives⟩

/-! ### What is in sight after a call -/

theorem live?_eq_some {key : String} {entry : CacheEntry} :
    m.live? key = some entry ↔
      m.entries.get? key = some entry ∧ entry.isExpired m.clock.reading = false := by
  simp [live?, Option.filter_eq_some_iff]

theorem live?_eq_none {key : String} :
    m.live? key = none ↔ ∀ entry, m.entries.get? key = some entry →
      entry.isExpired m.clock.reading = true := by
  simp [live?, Option.filter_eq_none_iff]

theorem live?_after_set (key other : String) (body : Content) :
    (m.after (.set key body)).live? other
      = if other = key then some ⟨body, none⟩ else m.live? other := by
  by_cases hother : other = key
  · simp [live?, after, hother, Option.filter, CacheEntry.isExpired]
  · simp [live?, after, hother]

/-- A new deadline is given to the entry in sight, unless the call revives one. -/
theorem live?_after_expire {key other : String} {ttl : Duration}
    (h : m.revives (.expire key ttl) = false) :
    (m.after (.expire key ttl)).live? other
      = (if other = key then
          (m.live? other).map fun e => { e with deadline := some (m.clock.reading + ttl.nanos) }
        else m.live? other).filter fun e => !e.isExpired m.clock.reading := by
  by_cases hother : other = key
  · subst hother
    cases hget : m.entries.get? other with
    | none => simp [live?, after, hget]
    | some entry =>
        cases hexpired : entry.isExpired m.clock.reading with
        | false => simp [live?, after, hget, hexpired, Option.filter]
        | true =>
            -- The entry is out of sight. As it does not come back, its new deadline has come too.
            have hspan : ttl.nanos = 0 := by simpa [revives, hget, hexpired] using h
            have hnone : m.live? other = none := by
              simp [live?, hget, hexpired, Option.filter]
            rw [if_pos rfl, hnone]
            simp [live?, after, hget, Option.filter, CacheEntry.isExpired, hspan]
  · simp [live?, after, hother, Option.filter_filter]

end MemoryCache

theorem Clock.advance_of_allowed {c : Clock} {span : Duration} (hmoving : c.jammed = false)
    (h : (c.advance span).1 = true) :
    (c.advance span).2.jammed = false ∧
      (c.advance span).2.reading = c.reading + span.nanos := by
  unfold advance at *
  rw [if_neg (by simp [hmoving])] at *
  cases hmoved : c.moved.add? span with
  | none => simp [hmoved] at h
  | some moved =>
      have hnanos := Duration.nanos_of_add? hmoved
      refine ⟨hmoving, ?_⟩
      simp only [reading, hmoving, Bool.false_eq_true, if_false]
      omega

namespace MemoryCache

variable {m : MemoryCache}

theorem live?_after_advance {key : String} {span : Duration}
    (h : m.clock.allows (.advance span) = true) :
    (m.after (.advance span)).live? key
      = (m.live? key).filter fun e => !e.isExpired (m.after (.advance span)).clock.reading := by
  have hle : m.clock.reading ≤ (m.after (.advance span)).clock.reading :=
    Clock.reading_le_advance h
  rw [live?, live?, Option.filter_filter]
  refine congrArg (fun test => Option.filter test (m.entries.get? key)) (funext fun e => ?_)
  cases hexpired : e.isExpired m.clock.reading with
  | false => simp
  | true => simp [CacheEntry.isExpired_mono hle hexpired]

end MemoryCache

/-! ### The eager store beside the store in memory -/

/-- An eager store has the entries that are in sight in a store in memory, at the same moment. -/
structure EagerCache.Mirrors (e : EagerCache) (m : MemoryCache) : Prop where
  now : e.now = m.clock.reading
  moving : m.clock.jammed = false
  entries : ∀ key, e.entries.get? key = m.live? key

namespace EagerCache.Mirrors

open MemoryCache

variable {e : EagerCache} {m n : MemoryCache}

theorem startingAt (start : Nat) :
    (EagerCache.startingAt start).Mirrors (.withClock (.startingAt start)) where
  now := rfl
  moving := rfl
  entries _ := rfl

theorem liveCount_eq (h : e.Mirrors m) : e.entries.entries.length = m.liveCount := by
  have hall : e.entries.countValues (fun _ => true) = e.entries.entries.length := by
    simp [Catalog.countValues]
  have hkept : ∀ key, (e.entries.get? key).filter (fun _ => true) = m.live? key := fun key => by
    rw [h.entries]
    cases m.live? key <;> rfl
  have hencard := e.entries.encard_eq_countValues fun _ => true
  simp only [hkept, m.encard_live, hall] at hencard
  exact_mod_cast hencard.symm

/-- Every call has the same result. -/
theorem result_eq (h : e.Mirrors m) (c : Call) : e.result c = m.result c := by
  cases c with
  | get key => simp [EagerCache.result, MemoryCache.result, h.entries]
  | set _ _ | expire _ _ | advance _ => rfl
  | length => simp [EagerCache.result, MemoryCache.result, h.liveCount_eq]
  | isEmpty =>
      rw [EagerCache.result, MemoryCache.result, ← h.liveCount_eq]
      cases e.entries.entries <;> rfl

/-- A call that revives no entry is mirrored. -/
theorem after (h : e.Mirrors m) {c : Call} (hallows : m.clock.allows c = true)
    (hspares : m.revives c = false) : (e.after c).Mirrors (m.after c) := by
  cases c with
  | get key =>
      exact ⟨by rw [clock_after_get]; exact h.now, by rw [clock_after_get]; exact h.moving,
        fun other => (h.entries other).trans (live?_after_get key other).symm⟩
  | set key body =>
      refine ⟨h.now, h.moving, fun other => ?_⟩
      rw [live?_after_set, ← h.entries]
      exact Catalog.get?_insert ..
  | expire key ttl =>
      refine ⟨h.now, h.moving, fun other => ?_⟩
      rw [live?_after_expire hspares, ← h.entries, ← h.now]
      simp [EagerCache.after, settled]
  | length | isEmpty => exact h
  | advance span =>
      obtain ⟨hmoving, hreading⟩ := Clock.advance_of_allowed h.moving hallows
      refine ⟨?_, hmoving, fun key => ?_⟩
      · exact (congrArg (· + span.nanos) h.now).trans hreading.symm
      · have hnow : (m.after (.advance span)).clock.reading = e.now + span.nanos := by
          rw [h.now]
          exact hreading
        rw [live?_after_advance hallows, ← h.entries, hnow]
        simp [EagerCache.after, settled]

/-- So are calls of which none does. -/
theorem performs {calls : List Call} {results : List Result} (h : e.Mirrors m)
    (hm : m.Performs calls results n) (hspares : m.revivesIn calls = false) :
    results = e.results calls ∧ (e.afterAll calls).Mirrors n := by
  induction calls generalizing e m results with
  | nil =>
      obtain ⟨rfl, rfl⟩ := performs_nil.1 hm
      exact ⟨rfl, h⟩
  | cons c rest ih =>
      obtain ⟨hallows, more, rfl, hrest⟩ := performs_cons.1 hm
      obtain ⟨hc, hlater⟩ := revivesIn_cons.1 hspares
      obtain ⟨rfl, hmirrors⟩ := ih (h.after hallows hc) hrest hlater
      exact ⟨by rw [EagerCache.results, h.result_eq], hmirrors⟩

/-- An entry that is revived is found by the next lookup, though the eager store lacks it. -/
theorem results_ne_of_revives {key : String} {ttl : Duration} (h : e.Mirrors m)
    (hallows : m.clock.allows (.expire key ttl) = true)
    (hrevives : m.revives (.expire key ttl) = true) :
    ∃ results n, m.Performs [.expire key ttl, .get key] results n ∧
      results ≠ e.results [.expire key ttl, .get key] := by
  obtain ⟨hspan, entry, hget, hexpired⟩ := revives_expire_iff.1 hrevives
  have hnow : m.clock.now?.isSome := by
    cases hnow : m.clock.now? with
    | none => simp [Clock.allows, hnow] at hallows
    | some now => rfl
  refine ⟨_, _, performs_cons.2 ⟨hallows, _, rfl, performs_cons.2 ⟨hnow, _, rfl,
    performs_nil.2 ⟨rfl, rfl⟩⟩⟩, ?_⟩
  have hback : (m.after (.expire key ttl)).live? key
      = some { entry with deadline := some (m.clock.reading + ttl.nanos) } :=
    live?_eq_some.2 ⟨by simp [MemoryCache.after, hget],
      by simpa [CacheEntry.isExpired, MemoryCache.after] using hspan.ne'⟩
  have hgone : (e.after (.expire key ttl)).entries.get? key = none := by
    have hnone : e.entries.get? key = none := by
      rw [h.entries, live?_eq_none]
      intro other hother
      obtain rfl := Option.some.inj (hget.symm.trans hother)
      exact hexpired
    simp [EagerCache.after, settled, hnone]
  simp [EagerCache.results, EagerCache.result, MemoryCache.result, hback, hgone]

/-- A key without an answer has none until it is set, if no call revives an entry. -/
theorem lookup_ne {calls : List Call} {results : List Result} {key : String} {body : Content}
    (h : e.Mirrors m) (hm : m.Performs calls results n) (hspares : m.revivesIn calls = false)
    (hlookup : m.lookup key = .ok none) (hset : ∀ body, .set key body ∉ calls) :
    n.lookup key ≠ .ok (some body) := by
  have hgone : e.entries.get? key = none := by
    rw [h.entries]
    rw [lookup_eq] at hlookup
    split at hlookup
    · cases hlookup
    · simpa using hlookup
  have hstays := e.get?_afterAll_of_none hgone hset
  rw [(h.performs hm hspares).2.entries] at hstays
  rw [lookup_eq, hstays]
  split <;> simp

end EagerCache.Mirrors

/-! ### More lookups -/

namespace MemoryCache

variable {m n l : MemoryCache}

/-- Is a call a question, which leaves what is in sight? -/
def Call.isRead : Call → Bool
  | get _ | length | isEmpty => true
  | set _ _ | expire _ _ | advance _ => false

/-- A store is another one without some of the entries that are out of sight. -/
structure Thins (n m : MemoryCache) : Prop where
  clock : n.clock = m.clock
  entry : ∀ key, n.entries.get? key = m.entries.get? key ∨
    n.entries.get? key = none ∧ m.live? key = none

namespace Thins

theorem refl (m : MemoryCache) : Thins m m := ⟨rfl, fun _ => Or.inl rfl⟩

theorem live?_eq (h : Thins n m) (key : String) : n.live? key = m.live? key := by
  rcases h.entry key with heq | ⟨hnone, hdead⟩
  · rw [live?, live?, h.clock, heq]
  · rw [hdead]
    simp [live?, hnone]

theorem trans (h : Thins n m) (h' : Thins m l) : Thins n l where
  clock := h.clock.trans h'.clock
  entry key := by
    rcases h.entry key with heq | ⟨hnone, hdead⟩
    · rw [heq]
      exact h'.entry key
    · exact Or.inr ⟨hnone, (h'.live?_eq key).symm.trans hdead⟩

theorem mirrors {e : EagerCache} (h : Thins n m) (hm : e.Mirrors m) : e.Mirrors n where
  now := h.clock ▸ hm.now
  moving := h.clock ▸ hm.moving
  entries key := (hm.entries key).trans (h.live?_eq key).symm

theorem revives {c : Call} (h : Thins n m) (hspares : m.revives c = false) :
    n.revives c = false := by
  cases c with
  | expire key ttl =>
      rcases h.entry key with heq | ⟨hnone, -⟩
      · simpa [MemoryCache.revives, heq, h.clock] using hspares
      · simp [MemoryCache.revives, hnone]
  | get _ | set _ _ | length | isEmpty | advance _ => rfl

/-- A call that revives no entry leaves stores of which one still thins out the other. -/
theorem after {c : Call} (h : Thins n m) (hallows : m.clock.allows c = true)
    (hspares : m.revives c = false) : Thins (n.after c) (m.after c) := by
  have hclock : (n.after c).clock = (m.after c).clock := by rw [clock_after, clock_after, h.clock]
  refine ⟨hclock, fun key => ?_⟩
  rcases h.entry key with heq | ⟨hnone, hdead⟩
  · exact Or.inl (AgreesOn.after ⟨h.clock, heq⟩ c).entry
  · cases c with
    | get other =>
        rw [get?_after_get, get?_after_get, live?_after_get, h.live?_eq]
        by_cases hother : key = other
        · simp [hother]
        · simp [hother, hnone, hdead]
    | set other body =>
        by_cases hother : key = other
        · simp [MemoryCache.after, hother]
        · rw [live?_after_set, if_neg hother]
          simp [MemoryCache.after, hother, hnone, hdead]
    | expire other ttl =>
        rw [live?_after_expire hspares]
        simp [MemoryCache.after, hnone, hdead]
    | length | isEmpty => exact Or.inr ⟨hnone, hdead⟩
    | advance span =>
        refine Or.inr ⟨hnone, ?_⟩
        rw [live?_after_advance hallows, hdead]
        rfl

theorem revivesIn {calls : List Call} {results : List Result} (h : Thins n m)
    (hm : m.Performs calls results l) (hspares : m.revivesIn calls = false) :
    n.revivesIn calls = false := by
  induction calls generalizing n m results with
  | nil => rfl
  | cons c rest ih =>
      obtain ⟨hallows, more, -, hrest⟩ := performs_cons.1 hm
      obtain ⟨hc, hlater⟩ := revivesIn_cons.1 hspares
      exact revivesIn_cons.2 ⟨h.revives hc, ih (h.after hallows hc) hrest hlater⟩

/-- What a store lacks makes no difference to calls that revive no entry. -/
theorem results_eq {e : EagerCache} {calls : List Call} {results others : List Result}
    {n' : MemoryCache} (h : Thins n m) (he : e.Mirrors m) (hm : m.Performs calls results l)
    (hn : n.Performs calls others n') (hspares : m.revivesIn calls = false) : others = results := by
  rw [(he.performs hm hspares).1, ((h.mirrors he).performs hn (h.revivesIn hm hspares)).1]

/-- Questions thin a store out. -/
theorem of_reads {reads : List Call} {results : List Result} (h : m.Performs reads results n)
    (hreads : ∀ c ∈ reads, c.isRead = true) : Thins n m := by
  induction reads generalizing m results with
  | nil =>
      obtain ⟨-, rfl⟩ := performs_nil.1 h
      exact refl n
  | cons c rest ih =>
      obtain ⟨-, more, -, hrest⟩ := performs_cons.1 h
      have hc : Thins (m.after c) m := by
        cases c with
        | get key =>
            refine ⟨clock_after_get key, fun other => ?_⟩
            rw [get?_after_get]
            by_cases hother : other = key
            · rw [if_pos hother, ← hother]
              cases hlive : m.live? other with
              | none => exact Or.inr ⟨rfl, rfl⟩
              | some entry => exact Or.inl (live?_eq_some.1 hlive).1.symm
            · exact Or.inl (if_neg hother)
        | length | isEmpty => exact refl m
        | set _ _ | expire _ _ | advance _ => cases hreads _ List.mem_cons_self
      exact (ih hrest fun c' hmem => hreads c' (List.mem_cons_of_mem c hmem)).trans hc

end Thins

/-! ### What can be noticed -/

/-- Calls on a store that starts without entries have the results that they have with the eager
store, if they stay in the range of the clock. -/
def ActsEagerly (start : Nat) (calls : List Call) : Prop :=
  ∀ results m, (withClock (.startingAt start)).Performs calls results m →
    results = (EagerCache.startingAt start).results calls

/-- Calls on a store that starts without entries, and that stay in the range of the clock, cannot be
told from calls on the eager store, neither by their own results nor by a lookup at any point
between them, exactly if none of them gives a new deadline to an entry that is in memory past its
deadline.

Then a key that has no answer at some point has none until it is set again, and questions that are
put anywhere among the calls do not change the results of the others. -/
theorem expiry_unobservable_iff {start : Nat} {calls : List Call} {results : List Result}
    {m : MemoryCache} (hrun : (withClock (.startingAt start)).Performs calls results m) :
    ((∀ front key, front <+: calls →
        ActsEagerly start front ∧ ActsEagerly start (front ++ [.get key])) ↔
      (withClock (.startingAt start)).revivesIn calls = false) ∧
    ((withClock (.startingAt start)).revivesIn calls = false →
      results = (EagerCache.startingAt start).results calls ∧
      (∀ front back before m₁ key, calls = front ++ back →
        (withClock (.startingAt start)).Performs front before m₁ → m₁.lookup key = .ok none →
        (∀ body, .set key body ∉ back) → ∀ body, m.lookup key ≠ .ok (some body)) ∧
      ∀ front reads back others n, calls = front ++ back → (∀ c ∈ reads, c.isRead = true) →
        (withClock (.startingAt start)).Performs (front ++ reads ++ back) others n →
        others.take front.length = results.take front.length ∧
        others.drop (front ++ reads).length = results.drop front.length) := by
  have hstart := EagerCache.Mirrors.startingAt start
  refine ⟨⟨fun hacts => ?_, fun hspares front key hfront => ?_⟩, fun hspares => ⟨?_, ?_, ?_⟩⟩
  · by_contra hrevives
    rw [Bool.not_eq_false] at hrevives
    obtain ⟨front, key, ttl, back, before, m₁, rfl, hfront, hspared, hallows, hback⟩ :=
      exists_first_revival hrun hrevives
    obtain ⟨rfl, hmirrors⟩ := hstart.performs hfront hspared
    obtain ⟨more, n, hmore, hne⟩ := hmirrors.results_ne_of_revives hallows hback
    have hall := performs_append.2 ⟨_, m₁, more, rfl, hfront, hmore⟩
    rw [List.append_cons] at hall
    have heager := (hacts (front ++ [.expire key ttl]) key ⟨back, by simp⟩).2 _ n hall
    rw [← List.append_cons, EagerCache.results_append] at heager
    exact hne (List.append_cancel_left heager)
  · obtain ⟨back, rfl⟩ := hfront
    obtain ⟨before, m₁, more, -, hbefore, -⟩ := performs_append.1 hrun
    have hspared := ((revivesIn_append hbefore).1 hspares).1
    refine ⟨fun others n hothers => (hstart.performs hothers hspared).1, fun others n hothers => ?_⟩
    exact (hstart.performs hothers ((revivesIn_append hbefore).2 ⟨hspared, rfl⟩)).1
  · exact (hstart.performs hrun hspares).1
  · rintro front back before m₁ key rfl hfront hlookup hset body
    obtain ⟨before', m₂, more, -, hfront', hback⟩ := performs_append.1 hrun
    obtain ⟨rfl, rfl⟩ := hfront.unique hfront'
    obtain ⟨hspared, hlater⟩ := (revivesIn_append hfront).1 hspares
    exact (hstart.performs hfront hspared).2.lookup_ne hback hlater hlookup hset
  · rintro front reads back others n rfl hreads hothers
    obtain ⟨before, m₁, more, rfl, hfront, hback⟩ := performs_append.1 hrun
    obtain ⟨_, m₂, more', rfl, hfront', hback'⟩ := performs_append.1 hothers
    obtain ⟨before', m₃, answers, rfl, hfront'', hasked⟩ := performs_append.1 hfront'
    obtain ⟨rfl, rfl⟩ := hfront.unique hfront''
    obtain ⟨hspared, hlater⟩ := (revivesIn_append hfront).1 hspares
    obtain rfl := (Thins.of_reads hasked hreads).results_eq (hstart.performs hfront hspared).2 hback
      hback' hlater
    simp [List.drop_append, hfront.length_eq, hasked.length_eq]

/-- An entry passes its deadline and is asked for before its key is given a new deadline. The key is
set again only after that. -/
def askedInTime : List Call :=
  [.set "k" (.text "A"), .expire "k" (.ofSeconds 1), .advance (.ofSeconds 2), .length, .get "k",
    .expire "k" (.ofSeconds 10), .get "k", .set "k" (.text "B"), .get "k"]

/-- None of these calls revives the entry, so their results are those of the eager store. -/
theorem expiry_unobservable_iff_asked_in_time :
    ∃ results m, (withClock (.startingAt 0)).Performs askedInTime results m ∧
      (withClock (.startingAt 0)).revivesIn askedInTime = false ∧
      results = (EagerCache.startingAt 0).results askedInTime ∧
      results.getLast? = some (.found (some (.text "B"))) ∧ ActsEagerly 0 askedInTime := by
  have hrun : (withClock (.startingAt 0)).Performs askedInTime _ _ := rfl
  have hspares : (withClock (.startingAt 0)).revivesIn askedInTime = false := by decide
  obtain ⟨hiff, hresults⟩ := expiry_unobservable_iff hrun
  exact ⟨_, _, hrun, hspares, (hresults hspares).1, rfl,
    (hiff.2 hspares askedInTime "k" List.prefix_rfl).1⟩

/-- An entry has passed its deadline a second ago, and its key is given a new deadline. The lookup
that follows finds the entry, which the eager store let go. -/
theorem expired_entry_revived :
    ∃ calls results m, (withClock (.startingAt 0)).Performs calls results m ∧
      results.getLast? = some (.found (some (.text "A"))) ∧
      ((EagerCache.startingAt 0).results calls).getLast? = some (.found none) :=
  ⟨[.set "k" (.text "A"), .expire "k" (.ofSeconds 1), .advance (.ofSeconds 2),
      .expire "k" (.ofSeconds 10), .get "k"], _, _, rfl, rfl, rfl⟩

end MemoryCache

end Rendition

import Mathlib.Data.Set.Card
import Rendition.Proofs.Caching

/-!
# Rendition.Proofs.Holding

What a store in memory holds for its readers. An entry whose deadline has come may still be in
memory, and a lookup that meets it drops it. What lookups answer depends only on the other entries
(`MemoryCache.live?`) and on the clock, so that dropping cannot be noticed at the same moment, and
the number of entries that the store reports is the number of keys with an answer
(`length_counts_lookups`).

Each call is described by its result and by the store it leaves, as long as the clock allows it
(`run_call`); `performs_cons` and `performs_append` do the same for calls one after the other. A
call looks at the entry of its own key and at the clock. So stores that agree on one key and on the
time go on agreeing, whatever is done to both (`AgreesOn.performs`).
-/

namespace Rendition

open Time

/-! ### Counting the names of a catalog -/

namespace Catalog

variable {α : Type} (c : Catalog α)

theorem get?_eq_some_iff {name : String} {value : α} :
    c.get? name = some value ↔ (name, value) ∈ c.entries := by
  constructor
  · intro h
    obtain ⟨front, back, hentries, -⟩ := List.lookup_eq_some_iff.1 h
    simp [hentries]
  · intro h
    obtain ⟨front, back, hentries⟩ := List.append_of_mem h
    refine List.lookup_eq_some_iff.2 ⟨front, back, hentries, fun e he => ?_⟩
    -- A second entry of the name in front would break that no name occurs twice.
    have hnodup := c.nodup
    rw [hentries, List.map_append, List.nodup_append] at hnodup
    have hne := hnodup.2.2 e.1 (List.mem_map_of_mem he) name (by simp)
    simpa using Ne.symm hne

/-- As many names have a value that passes a test as are counted. -/
theorem encard_eq_countValues (test : α → Bool) :
    {name | ((c.get? name).filter test).isSome}.encard = c.countValues test := by
  have hset : {name | ((c.get? name).filter test).isSome}
      = ((c.entries.filter (test ·.2)).map (·.1)).toFinset := by
    ext name
    simp only [Set.mem_ofPred_eq, Option.isSome_iff_exists, Option.filter_eq_some_iff,
      get?_eq_some_iff, List.coe_toFinset, List.mem_map, List.mem_filter, Prod.exists]
    constructor
    · rintro ⟨value, hmem, htest⟩
      exact ⟨name, value, ⟨hmem, htest⟩, rfl⟩
    · rintro ⟨_, value, ⟨hmem, htest⟩, rfl⟩
      exact ⟨value, hmem, htest⟩
  have hnodup : ((c.entries.filter (test ·.2)).map (·.1)).Nodup :=
    c.nodup.sublist (List.filter_sublist.map _)
  rw [hset, Set.encard_coe_eq_coe_finsetCard, List.toFinset_card_of_nodup hnodup, List.length_map,
    countValues, List.countP_eq_length_filter]

end Catalog

/-! ### Calls -/

/-- What can be done with a store in memory. -/
inductive MemoryCache.Call where
  | get (key : String)
  | set (key : String) (body : Content)
  | expire (key : String) (ttl : Duration)
  | length
  | isEmpty
  | advance (span : Duration)

/-- What comes of it. -/
inductive MemoryCache.Result where
  | found (body? : Option Content)
  | done
  | count (n : Nat)
  | verdict (b : Bool)

/-- Does a clock stay in range when a call is made? -/
def Clock.allows (clock : Clock) : MemoryCache.Call → Bool
  | .get _ | .length | .isEmpty => clock.now?.isSome
  | .set _ _ => true
  | .expire _ ttl => (clock.now?.bind fun now => moment? (now + ttl.nanos)).isSome
  | .advance span => (clock.advance span).1

namespace MemoryCache

/-- The key whose entry a call is about. -/
def Call.key? : Call → Option String
  | get key | set key _ | expire key _ => some key
  | length | isEmpty | advance _ => none

/-- Makes a call. -/
def call : Call → CacheM MemoryCache Result
  | .get key => do return .found (← get key)
  | .set key body => do
    set key body
    return .done
  | .expire key ttl => do
    expire key ttl
    return .done
  | .length => do return .count (← length)
  | .isEmpty => do return .verdict (← isEmpty)
  | .advance span => do
    advance span
    return .done

/-- Makes calls one after the other, up to the first that leaves the range of the clock. -/
def callAll : List Call → CacheM MemoryCache (List Result)
  | [] => return []
  | c :: rest => do
    let result ← call c
    return result :: (← callAll rest)

/-- Calls stay in the range of the clock, and these are their results and the store they leave. -/
def Performs (m : MemoryCache) (calls : List Call) (results : List Result) (m' : MemoryCache) :
    Prop :=
  (callAll calls).run.run m = (.ok results, m')

/-- What a lookup of a key comes to. -/
def lookup (m : MemoryCache) (key : String) : Except Halt (Option Content) :=
  ((get key).run.run m).1

variable (m : MemoryCache)

/-- The entry of a key, unless its deadline has come. -/
def live? (key : String) : Option CacheEntry :=
  (m.entries.get? key).filter fun e => !e.isExpired m.clock.reading

/-- The number of entries whose deadline has not come. -/
def liveCount : Nat :=
  m.entries.countValues fun e => !e.isExpired m.clock.reading

/-- The result of a call that the clock allows. -/
def result : Call → Result
  | .get key => .found ((m.live? key).map (·.content))
  | .set _ _ | .expire _ _ | .advance _ => .done
  | .length => .count m.liveCount
  | .isEmpty => .verdict (m.liveCount == 0)

/-- The store after a call that the clock allows. -/
def after : Call → MemoryCache
  | .get key =>
    if (m.entries.get? key).any (·.isExpired m.clock.reading) then
      { m with entries := m.entries.erase key }
    else m
  | .set key body => { m with entries := m.entries.insert key ⟨body, none⟩ }
  | .expire key ttl =>
    { m with
      entries := m.entries.modify key fun e =>
        { e with deadline := some (m.clock.reading + ttl.nanos) } }
  | .length | .isEmpty => m
  | .advance span => { m with clock := (m.clock.advance span).2 }

/-! ### What a call does -/

theorem run_length :
    length.run.run m = match m.clock.now? with
      | none => (.error .overflow, m)
      | some _ => (.ok m.liveCount, m) := by
  rw [length, run_bind, run_now]
  cases hnow : m.clock.now? with
  | none => rfl
  | some now =>
      obtain rfl := Clock.eq_reading hnow
      rfl

theorem run_isEmpty :
    isEmpty.run.run m = match m.clock.now? with
      | none => (.error .overflow, m)
      | some _ => (.ok (m.liveCount == 0), m) := by
  rw [isEmpty, run_bind, run_length]
  cases m.clock.now? <;> rfl

theorem run_get_eq (key : String) :
    (get key).run.run m = match m.clock.now? with
      | none => (.error .overflow, m)
      | some _ => (.ok ((m.live? key).map (·.content)), m.after (.get key)) := by
  rw [run_get]
  cases hnow : m.clock.now? with
  | none => rfl
  | some now =>
      obtain rfl := Clock.eq_reading hnow
      cases hget : m.entries.get? key with
      | none => simp [live?, after, hget]
      | some entry => cases hexpired : entry.isExpired m.clock.reading <;>
          simp [live?, after, hget, hexpired, Option.filter]

/-- A call that the clock allows has its result and leaves its store; any other one ends in an
overflow. -/
theorem run_call_cases (c : Call) :
    m.clock.allows c = true ∧ (call c).run.run m = (.ok (m.result c), m.after c) ∨
      m.clock.allows c = false ∧ ((call c).run.run m).1 = .error .overflow := by
  cases c with
  | get key =>
      rw [call, run_bind, run_get_eq]
      cases hnow : m.clock.now? with
      | none => exact Or.inr ⟨by simp [Clock.allows, hnow], rfl⟩
      | some now => exact Or.inl ⟨by simp [Clock.allows, hnow], rfl⟩
  | set key body => exact Or.inl ⟨rfl, rfl⟩
  | expire key ttl =>
      rw [call, run_bind, run_expire]
      cases hnow : m.clock.now? with
      | none => exact Or.inr ⟨by simp [Clock.allows, hnow], rfl⟩
      | some now =>
          obtain rfl := Clock.eq_reading hnow
          cases hmoment : Clock.moment? (m.clock.reading + ttl.nanos) with
          | none => exact Or.inr ⟨by simp [Clock.allows, hnow, hmoment], by simp only [hmoment]⟩
          | some deadline =>
              obtain rfl := Clock.eq_of_moment? hmoment
              exact Or.inl ⟨by simp [Clock.allows, hnow, hmoment], by simp only [hmoment]; rfl⟩
  | length =>
      rw [call, run_bind, run_length]
      cases hnow : m.clock.now? with
      | none => exact Or.inr ⟨by simp [Clock.allows, hnow], rfl⟩
      | some now => exact Or.inl ⟨by simp [Clock.allows, hnow], rfl⟩
  | isEmpty =>
      rw [call, run_bind, run_isEmpty]
      cases hnow : m.clock.now? with
      | none => exact Or.inr ⟨by simp [Clock.allows, hnow], rfl⟩
      | some now => exact Or.inl ⟨by simp [Clock.allows, hnow], rfl⟩
  | advance span =>
      rw [call, run_bind, run_advance]
      cases hrange : (m.clock.advance span).1 with
      | false => exact Or.inr ⟨hrange, rfl⟩
      | true => exact Or.inl ⟨hrange, rfl⟩

theorem call_eq_ok_iff {c : Call} {result : Result} {m' : MemoryCache} :
    (call c).run.run m = (.ok result, m') ↔
      m.clock.allows c = true ∧ result = m.result c ∧ m' = m.after c := by
  rcases m.run_call_cases c with ⟨hallows, hrun⟩ | ⟨hallows, hrun⟩
  · rw [hrun]
    constructor
    · intro h
      obtain ⟨hresult, hafter⟩ := Prod.mk.inj h
      exact ⟨hallows, (Except.ok.inj hresult).symm, hafter.symm⟩
    · rintro ⟨-, rfl, rfl⟩
      rfl
  · refine iff_of_false (fun h => ?_) fun h => by simp [hallows] at h
    rw [h] at hrun
    cases hrun

theorem lookup_eq (key : String) :
    m.lookup key = match m.clock.now? with
      | none => .error .overflow
      | some _ => .ok ((m.live? key).map (·.content)) := by
  rw [lookup, run_get_eq]
  cases m.clock.now? <;> rfl

/-! ### Calls one after the other -/

variable {m} {m' : MemoryCache} {results : List Result}

theorem performs_nil : m.Performs [] results m' ↔ results = [] ∧ m' = m := by
  constructor
  · intro h
    obtain ⟨hresults, hm⟩ := Prod.mk.inj (show (Except.ok [], m) = (.ok results, m') from h)
    exact ⟨(Except.ok.inj hresults).symm, hm.symm⟩
  · rintro ⟨rfl, rfl⟩
    rfl

theorem performs_cons {c : Call} {rest : List Call} :
    m.Performs (c :: rest) results m' ↔
      m.clock.allows c = true ∧
        ∃ more, results = m.result c :: more ∧ (m.after c).Performs rest more m' := by
  unfold Performs
  rw [callAll]
  constructor
  · intro h
    obtain ⟨result, t, hcall, hrest⟩ := run_bind_inv h
    obtain ⟨hallows, rfl, rfl⟩ := (call_eq_ok_iff m).1 hcall
    obtain ⟨more, u, hmore, hlast⟩ := run_bind_inv hrest
    obtain ⟨hresults, rfl⟩ := Prod.mk.inj hlast
    exact ⟨hallows, more, (Except.ok.inj hresults).symm, hmore⟩
  · rintro ⟨hallows, more, rfl, hmore⟩
    rw [run_bind_of_ok ((call_eq_ok_iff m).2 ⟨hallows, rfl, rfl⟩), run_bind_of_ok hmore]
    rfl

theorem performs_append {front back : List Call} :
    m.Performs (front ++ back) results m' ↔
      ∃ before m₁ more, results = before ++ more ∧
        m.Performs front before m₁ ∧ m₁.Performs back more m' := by
  induction front generalizing m results with
  | nil =>
      constructor
      · exact fun h => ⟨[], m, results, rfl, performs_nil.2 ⟨rfl, rfl⟩, h⟩
      · rintro ⟨before, m₁, more, rfl, hfront, hback⟩
        obtain ⟨rfl, rfl⟩ := performs_nil.1 hfront
        exact hback
  | cons c rest ih =>
      rw [List.cons_append, performs_cons]
      constructor
      · rintro ⟨hallows, all, rfl, hall⟩
        obtain ⟨before, m₁, more, rfl, hfront, hback⟩ := ih.1 hall
        exact ⟨_ :: before, m₁, more, rfl, performs_cons.2 ⟨hallows, before, rfl, hfront⟩, hback⟩
      · rintro ⟨before, m₁, more, rfl, hfront, hback⟩
        obtain ⟨hallows, others, rfl, hrest⟩ := performs_cons.1 hfront
        exact ⟨hallows, others ++ more, rfl, ih.2 ⟨others, m₁, more, rfl, hrest, hback⟩⟩

/-- Calls have one outcome. -/
theorem Performs.unique {calls : List Call} {other : List Result} {n : MemoryCache}
    (h : m.Performs calls results m') (h' : m.Performs calls other n) :
    results = other ∧ m' = n := by
  obtain ⟨hresults, hm⟩ := Prod.mk.inj (h.symm.trans h')
  exact ⟨Except.ok.inj hresults, hm⟩

theorem Performs.length_eq {calls : List Call} (h : m.Performs calls results m') :
    results.length = calls.length := by
  induction calls generalizing m results with
  | nil => simp [(performs_nil.1 h).1]
  | cons c rest ih =>
      obtain ⟨-, more, rfl, hrest⟩ := performs_cons.1 h
      simp [ih hrest]

/-! ### The entries after a call -/

/-- A lookup drops the entry of its key if the deadline has come, and no other. -/
theorem get?_after_get (key other : String) :
    (m.after (.get key)).entries.get? other
      = if other = key then m.live? key else m.entries.get? other := by
  have hentries : (m.after (.get key)).entries
      = if (m.entries.get? key).any (·.isExpired m.clock.reading) then m.entries.erase key
        else m.entries := by
    rw [after]
    split <;> rfl
  rw [hentries]
  cases hget : m.entries.get? key with
  | none => by_cases hother : other = key <;> simp [hother, live?, hget]
  | some entry => cases hexpired : entry.isExpired m.clock.reading <;>
      by_cases hother : other = key <;> simp [hother, live?, hget, hexpired, Option.filter]

theorem clock_after_get (key : String) : (m.after (.get key)).clock = m.clock := by
  rw [after]
  split <;> rfl

/-- A call on another key, or on none, leaves the entry of a key. -/
theorem get?_after_of_ne {c : Call} {key : String} (h : c.key? ≠ some key) :
    (m.after c).entries.get? key = m.entries.get? key := by
  cases c with
  | get other =>
      rw [get?_after_get, if_neg]
      exact fun heq => h (congrArg some heq.symm)
  | set other body =>
      have hne : key ≠ other := fun heq => h (congrArg some heq.symm)
      simp [after, hne]
  | expire other ttl =>
      have hne : key ≠ other := fun heq => h (congrArg some heq.symm)
      simp [after, hne]
  | length | isEmpty | advance _ => rfl

/-- Only a move of the clock changes the clock. -/
theorem clock_after (c : Call) :
    (m.after c).clock = match c with
      | .advance span => (m.clock.advance span).2
      | _ => m.clock := by
  cases c with
  | get key => exact clock_after_get key
  | set _ _ | expire _ _ | length | isEmpty | advance _ => rfl

/-! ### Stores that agree on a key -/

/-- The same entry under a key, at the same time. -/
structure AgreesOn (key : String) (m n : MemoryCache) : Prop where
  clock : m.clock = n.clock
  entry : m.entries.get? key = n.entries.get? key

section Agree

variable {n : MemoryCache} {key : String}

theorem AgreesOn.live?_eq (h : AgreesOn key m n) : m.live? key = n.live? key := by
  rw [live?, live?, h.clock, h.entry]

theorem AgreesOn.lookup_eq (h : AgreesOn key m n) : m.lookup key = n.lookup key := by
  rw [MemoryCache.lookup_eq, MemoryCache.lookup_eq, h.clock, h.live?_eq]

/-- A call on another key leaves a store that agrees with the one before. -/
theorem agreesOn_after {c : Call} {other : String} (hother : c.key? = some other)
    (hne : other ≠ key) : AgreesOn key (m.after c) m where
  clock := by
    rw [clock_after]
    cases c with
    | get _ | set _ _ | expire _ _ | length | isEmpty => rfl
    | advance _ => cases hother
  entry := get?_after_of_ne (by simpa [hother] using hne)

/-- The same call leaves stores that agree as well. -/
theorem AgreesOn.after (h : AgreesOn key m n) (c : Call) :
    AgreesOn key (m.after c) (n.after c) where
  clock := by rw [clock_after, clock_after, h.clock]
  entry := by
    by_cases hkey : c.key? = some key
    · cases c with
      | get other =>
          obtain rfl := Option.some.inj hkey
          simp [get?_after_get, h.live?_eq]
      | set other body =>
          obtain rfl := Option.some.inj hkey
          simp [MemoryCache.after]
      | expire other ttl =>
          obtain rfl := Option.some.inj hkey
          simp [MemoryCache.after, h.clock, h.entry]
      | length | isEmpty | advance _ => cases hkey
    · rw [get?_after_of_ne hkey, get?_after_of_ne hkey, h.entry]

/-- What the clock allows with one store it allows with the other. -/
theorem AgreesOn.performs {calls : List Call} (h : AgreesOn key m n)
    (hm : m.Performs calls results m') :
    ∃ others n', n.Performs calls others n' ∧ AgreesOn key m' n' := by
  induction calls generalizing m n results with
  | nil =>
      obtain ⟨-, rfl⟩ := performs_nil.1 hm
      exact ⟨[], n, performs_nil.2 ⟨rfl, rfl⟩, h⟩
  | cons c rest ih =>
      obtain ⟨hallows, more, -, hrest⟩ := performs_cons.1 hm
      obtain ⟨others, n', hn, hagrees⟩ := ih (h.after c) hrest
      exact ⟨_, n', performs_cons.2 ⟨h.clock ▸ hallows, others, rfl, hn⟩, hagrees⟩

end Agree

/-! ### Lookups at one moment -/

/-- A lookup changes nothing that can be seen at the same moment. -/
theorem live?_after_get (key other : String) :
    (m.after (.get key)).live? other = m.live? other := by
  unfold live?
  rw [clock_after_get, get?_after_get]
  split
  · next heq =>
      rw [heq, live?, Option.filter_filter]
      simp
  · rfl

/-- Lookups are allowed wherever the clock can be read, and leave what can be seen. -/
theorem exists_performs_gets {now : Nat} (hnow : m.clock.now? = some now) (keys : List String) :
    ∃ results m', m.Performs (keys.map .get) results m' ∧ m'.clock = m.clock ∧
      ∀ key, m'.live? key = m.live? key := by
  induction keys generalizing m with
  | nil => exact ⟨[], m, performs_nil.2 ⟨rfl, rfl⟩, rfl, fun _ => rfl⟩
  | cons key rest ih =>
      obtain ⟨more, m', hrest, hclock, hlive⟩ :=
        ih (m := m.after (.get key)) (by rw [clock_after_get, hnow])
      refine ⟨m.result (.get key) :: more, m', ?_, ?_, fun other => ?_⟩
      · exact performs_cons.2 ⟨by simp [Clock.allows, hnow], more, rfl, hrest⟩
      · rw [hclock, clock_after_get]
      · rw [hlive, live?_after_get]

theorem encard_live (m : MemoryCache) : {key | (m.live? key).isSome}.encard = m.liveCount :=
  m.entries.encard_eq_countValues _

/-- Stores with the same keys in sight count alike. -/
theorem liveCount_congr {n : MemoryCache} (h : ∀ key, m.live? key = n.live? key) :
    m.liveCount = n.liveCount := by
  have hencard := m.encard_live
  simp only [h, n.encard_live] at hencard
  exact_mod_cast hencard.symm

/-- At any moment that the clock can show, whatever was done with a store before: it reports as many
entries as there are keys for which a lookup would answer something, and that it is empty exactly if
there is no such key. Lookups change neither that number nor what any lookup answers. And whatever
is done with the entry of one key, a lookup of another key answers the same, then and after any
further calls. -/
theorem length_counts_lookups (m : MemoryCache) {now : Nat} (hnow : m.clock.now? = some now) :
    (∃ n : Nat, length.run.run m = (.ok n, m) ∧
      {key | ∃ body, m.lookup key = .ok (some body)}.encard = n) ∧
    (∃ b, isEmpty.run.run m = (.ok b, m) ∧ (b = true ↔ ∀ key, m.lookup key = .ok none)) ∧
    (∀ keys : List String, ∃ results m', m.Performs (keys.map .get) results m' ∧
      (length.run.run m').1 = (length.run.run m).1 ∧
      ∀ key, m'.lookup key = m.lookup key) ∧
    ∀ (c : Call) (later : List Call) (key other : String) (results : List Result)
      (m' : MemoryCache), c.key? = some other → other ≠ key →
      m.Performs (c :: later) results m' →
        ∃ others n, m.Performs later others n ∧ m'.lookup key = n.lookup key := by
  have hlookup : ∀ key, m.lookup key = .ok ((m.live? key).map (·.content)) := fun key => by
    rw [lookup_eq, hnow]
  have hcount : length.run.run m = (.ok m.liveCount, m) := by rw [run_length, hnow]
  refine ⟨⟨m.liveCount, hcount, ?_⟩, ⟨m.liveCount == 0, ?_, ?_⟩, fun keys => ?_, ?_⟩
  · rw [← m.encard_live]
    congr 1
    ext key
    simp [hlookup, Option.isSome_iff_exists]
  · rw [run_isEmpty, hnow]
  · have hempty : m.liveCount = 0 ↔ {key | (m.live? key).isSome} = ∅ := by
      rw [← Set.encard_eq_zero, m.encard_live]
      exact_mod_cast Iff.rfl
    rw [beq_iff_eq, hempty, Set.eq_empty_iff_forall_notMem]
    simp [hlookup]
  · obtain ⟨results, m', hperforms, hclock, hlive⟩ := exists_performs_gets hnow keys
    refine ⟨results, m', hperforms, ?_, fun key => ?_⟩
    · rw [run_length, run_length, hclock, hnow, liveCount_congr hlive]
    · rw [lookup_eq, lookup_eq, hclock, hlive]
  · intro c later key other results m' hother hne hperforms
    obtain ⟨-, more, -, hlater⟩ := performs_cons.1 hperforms
    obtain ⟨others, n, hn, hagrees⟩ := (agreesOn_after hother hne).performs hlater
    exact ⟨others, n, hn, hagrees.lookup_eq⟩

/-- A store at the moment 10: an entry stays, one has its deadline ahead, and one has passed it but
is still in memory. -/
def halfExpired : MemoryCache where
  entries := ((Catalog.empty.insert "stays" ⟨.text "A", none⟩).insert "young" ⟨.text "B", some 20⟩)
    |>.insert "old" ⟨.text "C", some 5⟩
  clock := .startingAt 10

/-- Of the three entries two are counted, and two keys have an answer. Giving the expired entry a
new deadline does not change what another key is answered with a second later. -/
theorem length_counts_lookups_half_expired :
    (∃ n : Nat, length.run.run halfExpired = (.ok n, halfExpired) ∧ n = 2 ∧
      {key | ∃ body, halfExpired.lookup key = .ok (some body)}.encard = n) ∧
    ∃ others n, halfExpired.Performs [.get "old", .advance (.ofSeconds 1)] others n ∧
      n.lookup "stays" = .ok (some (.text "A")) := by
  obtain ⟨⟨n, hlength, hcard⟩, -, -, hframe⟩ :=
    length_counts_lookups halfExpired (show halfExpired.clock.now? = some 10 by decide)
  have htwo : length.run.run halfExpired = (.ok 2, halfExpired) := rfl
  obtain rfl := Except.ok.inj (congrArg Prod.fst (hlength.symm.trans htwo))
  have hperforms : halfExpired.Performs
      [.expire "old" (.ofSeconds 9), .get "old", .advance (.ofSeconds 1)] _ _ := rfl
  obtain ⟨others, n, hn, hlookup⟩ :=
    hframe _ _ "stays" "old" _ _ rfl (by decide) hperforms
  exact ⟨⟨2, hlength, rfl, hcard⟩, others, n, hn, hlookup.symm.trans rfl⟩

end MemoryCache

end Rendition

import Rendition.Cache.Basic
import Rendition.Cache.Clock
import Rendition.Catalog

/-!
# Rendition.Cache.Memory

A store in memory. An entry whose deadline has come is gone for every reader, though it is dropped
from memory only when it is asked for.
-/

namespace Rendition

open Time

/-- A content with its deadline, a moment of the clock. -/
structure CacheEntry where
  content : Content
  deadline : Option Nat

/-- Has the deadline come? -/
def CacheEntry.isExpired (now : Nat) (e : CacheEntry) : Bool :=
  match e.deadline with
  | none => false
  | some deadline => deadline ≤ now

/-- A store in memory and the clock of its deadlines. -/
structure MemoryCache where
  entries : Catalog CacheEntry
  clock : Clock

namespace MemoryCache

/-- The store without entries. -/
def withClock (clock : Clock) : MemoryCache := ⟨.empty, clock⟩

/-- The moment that the clock shows. -/
def now : CacheM MemoryCache Nat := do
  match (← get).clock.now? with
  | some now => pure now
  | none => throw .overflow

/-- The content of a key. An expired entry is dropped. -/
def get (key : String) : CacheM MemoryCache (Option Content) := do
  let now ← now
  let cache ← MonadState.get
  match cache.entries.get? key with
  | none => pure none
  | some entry =>
    if entry.isExpired now then
      MonadState.set { cache with entries := cache.entries.erase key }
      pure none
    else pure (some entry.content)

/-- Gives a key a content without a deadline. -/
def set (key : String) (content : Content) : CacheM MemoryCache Unit :=
  modify fun cache => { cache with entries := cache.entries.insert key ⟨content, none⟩ }

/-- Sets the deadline of a key that is in memory. The moment is computed whether it is or not. -/
def expire (key : String) (ttl : Duration) : CacheM MemoryCache Unit := do
  let now ← now
  -- A moment out of range is an overflow even if there is no entry to set it for.
  match Clock.moment? (now + ttl.nanos) with
  | none => throw .overflow
  | some deadline =>
    modify fun cache =>
      { cache with
        entries := cache.entries.modify key fun e => { e with deadline := some deadline } }

/-- The number of entries that are not expired. -/
def length : CacheM MemoryCache Nat := do
  let now ← now
  pure ((← MonadState.get).entries.countValues fun e => !e.isExpired now)

/-- Is no entry left that is not expired? -/
def isEmpty : CacheM MemoryCache Bool := do
  pure ((← length) == 0)

/-- Moves the clock forward. -/
def advance (span : Duration) : CacheM MemoryCache Unit := do
  let cache ← MonadState.get
  let (inRange, clock) := cache.clock.advance span
  MonadState.set { cache with clock }
  if inRange then pure () else throw .overflow

/-- The store. -/
def cache : Cache MemoryCache where
  get := get
  set := set
  expire := expire

end MemoryCache

end Rendition

import Rendition.Cache.Memory

/-!
# Rendition.Cache.Unreliable

A store in memory of which chosen operations fail, to see how requests fare without it.
-/

namespace Rendition

open Time

/-- An operation on a store. -/
inductive CacheOperation where
  | get
  | set
  | expire
  deriving DecidableEq

/-- The name of an operation. -/
def CacheOperation.name : CacheOperation → String
  | get => "cache_get"
  | set => "cache_set"
  | expire => "cache_expire"

/-- A store in memory, and the operations that fail. -/
structure UnreliableCache where
  memory : MemoryCache
  failing : List CacheOperation

namespace UnreliableCache

/-- A store that does not fail yet. -/
def ofMemory (memory : MemoryCache) : UnreliableCache := ⟨memory, []⟩

/-- The error of a failing operation. -/
def failure (operation : CacheOperation) : Error :=
  .storeUnavailable ("scripted " ++ operation.name ++ " failure")

/-- Uses the store in memory. -/
def direct {α : Type} (m : CacheM MemoryCache α) : CacheM UnreliableCache α := do
  let u ← get
  let (outcome, memory) := m.run u.memory
  set { u with memory }
  match outcome with
  | .ok a => pure a
  | .error h => throw h

/-- Uses the store in memory, unless the operation fails. -/
def attempt {α : Type} (operation : CacheOperation) (m : CacheM MemoryCache α) :
    CacheM UnreliableCache α := do
  if operation ∈ (← get).failing then throw (.failed (failure operation)) else direct m

/-- The store. -/
def cache : Cache UnreliableCache where
  get key := attempt .get (MemoryCache.get key)
  set key content := attempt .set (MemoryCache.set key content)
  expire key ttl := attempt .expire (MemoryCache.expire key ttl)

end UnreliableCache

end Rendition

import Rendition.Error

/-!
# Rendition.Sampler

Which requests pay for a check of freshness. A sampler counts requests in a word of 64 bits, which
wraps, and picks one in an interval. The interval is a power of two, so the requests picked are
those whose count has no bit below it.
-/

namespace Rendition

/-- A counter of requests, with the bits that must be clear in the count of a request picked. -/
structure Sampler where
  mask : UInt64
  count : UInt64
  deriving DecidableEq

namespace Sampler

/-- Is `n` a power of two? Only then does it share no bit with the number before it. -/
def isPowerOfTwo (n : UInt64) : Bool :=
  n != 0 && n &&& (n - 1) == 0

/-- A sampler that picks one request in `interval`, starting with the first, or `none` if the
interval is no power of two. -/
def ofInterval? (interval : UInt64) : Option Sampler :=
  if isPowerOfTwo interval then some ⟨interval - 1, 0⟩ else none

/-- A sampler for an interval, or the error that reports the interval. -/
def ofInterval (interval : UInt64) : Except Error Sampler :=
  match ofInterval? interval with
  | some s => .ok s
  | none =>
    .error (.fatalConfig
      ("invalidation interval " ++ toString interval.toNat ++ " is not a power of two"))

/-- Counts a request, and says whether it is picked. -/
def next (s : Sampler) : Bool × Sampler :=
  (s.count &&& s.mask == 0, { s with count := s.count + 1 })

/-- Which of the next `n` requests are picked. -/
def picks : (n : Nat) → Sampler → List Bool
  | 0, _ => []
  | n + 1, s => s.next.1 :: picks n s.next.2

end Sampler

end Rendition

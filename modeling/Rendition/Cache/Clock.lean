import Rendition.Time.Timestamp

/-!
# Rendition.Cache.Clock

A clock that moves only when it is told to. It starts at a moment of the machine's running time and
can be moved forward, up to the longest span there is. A move beyond that is an overflow and jams
the clock: from then on it shows the moment at which it started and does not move. A moment has its
second in a signed word of 64 bits, and showing or computing a later one is an overflow too.
-/

namespace Rendition

open Time

/-- A clock moved by hand. -/
structure Clock where
  /-- The moment at which it started, in nanoseconds of the machine's running time. -/
  start : Nat
  /-- How far it was moved. -/
  moved : Duration
  /-- Did a move fail? -/
  jammed : Bool

namespace Clock

/-- A clock that starts at a moment. -/
def startingAt (start : Nat) : Clock := ⟨start, .zero, false⟩

/-- The moments that can be shown are earlier than this. -/
def endOfTime : Nat := 0x8000000000000000 * nanosPerSecond

/-- A moment, if it can be shown. -/
def moment? (nanos : Nat) : Option Nat :=
  if nanos < endOfTime then some nanos else none

/-- The moment that the clock shows. -/
def now? (c : Clock) : Option Nat :=
  moment? (c.start + if c.jammed then 0 else c.moved.nanos)

/-- Moves the clock forward. The answer is whether that went without an overflow; a jammed clock
ignores the move. -/
def advance (span : Duration) (c : Clock) : Bool × Clock :=
  if c.jammed then (true, c)
  else
    match c.moved.add? span with
    | some moved => (true, { c with moved })
    | none => (false, { c with jammed := true })

end Clock

end Rendition

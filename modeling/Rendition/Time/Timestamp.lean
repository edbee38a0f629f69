/-!
# Rendition.Time.Timestamp

Spans of time and points of time, both in whole nanoseconds. A `Duration` counts a span of less
than `2 ^ 64` seconds and a `Timestamp` a point whose second fits a signed word of 64 bits; both
facts are part of the types, so an operation that leaves the range says so by answering `none`.
-/

namespace Rendition.Time

/-- The nanoseconds of a second. -/
def nanosPerSecond : Nat := 1000000000

/-! ### Durations -/

/-- A span of time. -/
structure Duration where
  /-- Its length in nanoseconds. -/
  nanos : Nat
  /-- Its whole seconds fit a word. -/
  fits : nanos < UInt64.size * nanosPerSecond := by decide
  deriving DecidableEq

namespace Duration

instance : Inhabited Duration := ⟨⟨0, by decide⟩⟩

/-- The empty span. -/
def zero : Duration := ⟨0, by decide⟩

/-- The span of that many nanoseconds, unless it is too long. -/
def ofNanos? (nanos : Nat) : Option Duration :=
  if fits : nanos < UInt64.size * nanosPerSecond then some ⟨nanos, fits⟩ else none

/-- A span of whole seconds. -/
def ofSeconds (seconds : UInt64) : Duration where
  nanos := seconds.toNat * nanosPerSecond
  fits := Nat.mul_lt_mul_of_pos_right seconds.toNat_lt (by decide)

/-- The whole seconds of a span. -/
def seconds (d : Duration) : Nat :=
  d.nanos / nanosPerSecond

/-- The sum of two spans, unless it is too long. -/
def add? (a b : Duration) : Option Duration :=
  ofNanos? (a.nanos + b.nanos)

theorem nanos_of_add? {a b c : Duration} (h : a.add? b = some c) :
    c.nanos = a.nanos + b.nanos := by
  unfold add? ofNanos? at h
  split at h
  · obtain rfl := Option.some.inj h
    rfl
  · cases h

end Duration

/-! ### Points of time -/

/-- Can a point of time lie that many nanoseconds after the epoch? Its second is rounded down. -/
def InEpochRange (nanos : Int) : Prop :=
  -0x8000000000000000 * nanosPerSecond ≤ nanos ∧ nanos < 0x8000000000000000 * nanosPerSecond

instance (nanos : Int) : Decidable (InEpochRange nanos) :=
  inferInstanceAs (Decidable (_ ∧ _))

/-- A point of time. -/
structure Timestamp where
  /-- Nanoseconds since the start of 1970 in Greenwich, negative before it. -/
  nanos : Int
  inRange : InEpochRange nanos
  deriving DecidableEq

namespace Timestamp

@[ext] theorem ext {a b : Timestamp} (h : a.nanos = b.nanos) : a = b := by
  cases a; cases b; simp_all

/-- The start of 1970 in Greenwich. -/
def epoch : Timestamp := ⟨0, by decide⟩

instance : Inhabited Timestamp := ⟨epoch⟩

/-- Earlier or at the same time. -/
instance : LE Timestamp := ⟨fun a b => a.nanos ≤ b.nanos⟩

/-- Earlier. -/
instance : LT Timestamp := ⟨fun a b => a.nanos < b.nanos⟩

instance (a b : Timestamp) : Decidable (a ≤ b) := inferInstanceAs (Decidable (a.nanos ≤ b.nanos))
instance (a b : Timestamp) : Decidable (a < b) := inferInstanceAs (Decidable (a.nanos < b.nanos))

theorem le_def {a b : Timestamp} : a ≤ b ↔ a.nanos ≤ b.nanos := Iff.rfl
theorem lt_def {a b : Timestamp} : a < b ↔ a.nanos < b.nanos := Iff.rfl

/-- The later of two points. -/
def later (a b : Timestamp) : Timestamp :=
  if a ≤ b then b else a

theorem nanos_later (a b : Timestamp) : (later a b).nanos = max a.nanos b.nanos := by
  unfold later
  split <;> simp only [le_def] at * <;> omega

/-- The point that many nanoseconds after the epoch, if there is one. -/
def ofNanos? (nanos : Int) : Option Timestamp :=
  if inRange : InEpochRange nanos then some ⟨nanos, inRange⟩ else none

/-- The point that many milliseconds after the epoch, which is always in range. -/
def ofMillis (millis : Int64) : Timestamp where
  nanos := millis.toInt * 1000000
  inRange := by
    have h1 := millis.le_toInt
    have h2 := millis.toInt_lt
    constructor
    · simp only [nanosPerSecond]; omega
    · simp only [nanosPerSecond]; omega

/-- The whole milliseconds since the epoch, rounded down. -/
def millis (t : Timestamp) : Int :=
  t.nanos.fdiv 1000000

/-- The whole seconds since the epoch, rounded down. -/
def second (t : Timestamp) : Int :=
  t.nanos.fdiv nanosPerSecond

/-- The point a span later, if there is one. -/
def add? (t : Timestamp) (d : Duration) : Option Timestamp :=
  ofNanos? (t.nanos + d.nanos)

theorem nanos_of_add? {t u : Timestamp} {d : Duration} (h : t.add? d = some u) :
    u.nanos = t.nanos + d.nanos := by
  unfold add? ofNanos? at h
  split at h
  · obtain rfl := Option.some.inj h
    rfl
  · cases h

end Timestamp

end Rendition.Time

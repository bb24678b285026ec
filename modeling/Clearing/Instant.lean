/-!
Points in time, counted in milliseconds by a signed 64-bit number.

Durations are given in whole seconds.  Arithmetic on instants saturates: a result past either end
of the range is that end.
-/

namespace Clearing

/-- Milliseconds since the epoch. -/
structure Instant where
  millis : Int64
deriving DecidableEq

namespace Instant

/-- The 64-bit number nearest to an integer. -/
def saturate (n : Int) : Int64 :=
  if n < -9223372036854775808 then Int64.minValue
  else if 9223372036854775807 < n then Int64.maxValue
  else Int64.ofInt n

/-- The epoch. -/
def epoch : Instant := ⟨0⟩

instance : LT Instant := ⟨fun a b => a.millis < b.millis⟩

instance (a b : Instant) : Decidable (a < b) :=
  inferInstanceAs (Decidable (a.millis < b.millis))

/-- The instant a number of seconds after the epoch. -/
def ofSeconds (seconds : Int64) : Instant :=
  ⟨saturate (seconds.toInt * 1000)⟩

/-- The milliseconds from `a` to `b`, negative where `b` is earlier. -/
def millisUntil (a b : Instant) : Int64 :=
  saturate (b.millis.toInt - a.millis.toInt)

/-- Whole seconds from `a` to `b`, none if `b` is earlier. -/
def secondsUntil (a b : Instant) : UInt64 :=
  UInt64.ofNat ((a.millisUntil b).toInt.toNat / 1000)

/-- The instant a number of seconds later. -/
def plusSeconds (a : Instant) (seconds : UInt64) : Instant :=
  let span := saturate ((saturate seconds.toNat).toInt * 1000)
  ⟨saturate (a.millis.toInt + span.toInt)⟩

/-- The instant as it appears in messages. -/
def text (a : Instant) : String :=
  s!"{a.millis.toInt}ms"

end Instant

end Clearing

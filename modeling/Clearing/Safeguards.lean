import Clearing.Identifier
import Clearing.Instant

/-!
Paused activities and tripped circuit breakers.

An activity can be paused everywhere, and a market can be halted by its breaker.  A breaker keeps
the reason and the time of its first trip; it can be reset only when the cooldown since then is
over.  The cooldown may be changed at any time.
-/

namespace Clearing

/-- What can be paused. -/
inductive Activity where
  | positions
  | deleveraging
  | funding
deriving DecidableEq

namespace Activity

/-- The activity as it appears in messages. -/
def text : Activity → String
  | positions => "positions"
  | deleveraging => "adl"
  | funding => "funding"

/-- The place of an activity in a list of them, which is alphabetical. -/
def index : Activity → Nat
  | deleveraging => 0
  | funding => 1
  | positions => 2

end Activity

theorem Activity.index_inj {a b : Activity} (h : a.index = b.index) : a = b := by
  cases a <;> cases b <;> simp_all [Activity.index]

instance : Key Activity := ⟨Activity.index, Activity.index_inj⟩

/-- Why a market was halted. -/
inductive HaltReason where
  | manual (reason : String)
deriving DecidableEq

/-- A tripped breaker. -/
structure Breaker where
  reason : HaltReason
  triggeredAt : Instant
deriving DecidableEq

/-- The paused activities and the tripped breakers. -/
structure Safeguards where
  paused : KeySet Activity
  breakers : Table MarketId Breaker
  /-- The milliseconds that must pass before a breaker can be reset. -/
  cooldown : Int64
deriving DecidableEq

namespace Safeguards

/-- Nothing is paused or halted. -/
def clear (cooldown : Int64) : Safeguards := ⟨.empty, .empty, cooldown⟩

/-- Pauses an activity. -/
def pause (s : Safeguards) (activity : Activity) : Safeguards :=
  { s with paused := s.paused.add activity }

/-- Lets a paused activity go on. -/
def unpause (s : Safeguards) (activity : Activity) : Safeguards :=
  { s with paused := s.paused.erase activity }

/-- Whether an activity is paused. -/
def isPaused (s : Safeguards) (activity : Activity) : Bool :=
  s.paused.contains activity

/-- The tripped breaker of a market. -/
def breaker? (s : Safeguards) (market : MarketId) : Option Breaker :=
  s.breakers.get? market

/-- Whether a market is halted. -/
def isTripped (s : Safeguards) (market : MarketId) : Bool :=
  s.breakers.contains market

/-- Halts a market, unless it is halted already. -/
def trip (s : Safeguards) (market : MarketId) (reason : HaltReason) (now : Instant) : Safeguards :=
  if s.isTripped market then s
  else { s with breakers := s.breakers.insert market ⟨reason, now⟩ }

/-- Whether a market is free to go on: not halted, or halted for the cooldown. -/
def canReset (s : Safeguards) (market : MarketId) (now : Instant) : Bool :=
  match s.breaker? market with
  | some breaker => decide (s.cooldown ≤ breaker.triggeredAt.millisUntil now)
  | none => true

/-- Resets the breaker of a market where that is possible, and says whether it was. -/
def reset (s : Safeguards) (market : MarketId) (now : Instant) : Bool × Safeguards :=
  if s.canReset market now then (true, { s with breakers := s.breakers.erase market })
  else (false, s)

/-- What can be asked of the safeguards. -/
inductive Operation where
  | pause (activity : Activity)
  | unpause (activity : Activity)
  | trip (market : MarketId) (reason : HaltReason) (now : Instant)
  | reset (market : MarketId) (now : Instant)
  | setCooldown (millis : Int64)
deriving DecidableEq

/-- Carries out an operation, and says whether it was accepted.  Only a reset can be declined. -/
def perform (s : Safeguards) : Operation → Bool × Safeguards
  | .pause activity => (true, s.pause activity)
  | .unpause activity => (true, s.unpause activity)
  | .trip market reason now => (true, s.trip market reason now)
  | .reset market now => s.reset market now
  | .setCooldown millis => (true, { s with cooldown := millis })

end Safeguards

end Clearing

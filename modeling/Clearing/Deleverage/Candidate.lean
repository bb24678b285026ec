import Clearing.Position.Basic

/-!
Candidates for deleveraging, and the notices by which positions become and cease to be one.

A position that gains is a candidate.  Its score weighs the gain by the leverage, so that the
largest leveraged gains are taken first.  Whoever keeps positions reports each change as a
notice, and a queue of candidates is what remains after reading them all.
-/

namespace Clearing

/-- How early a gaining position is deleveraged: its gain times its leverage, in hundredths. -/
def deleverageScore (pnl : Amount) (leverage : Leverage) : Except ArithmeticError Decimal := do
  let weighted ← pnl.mul leverage.toDecimal "adl score"
  weighted.div (Decimal.ofUInt32 100) "adl score"

/-- A position that can be deleveraged, as it was when last reported. -/
structure Candidate where
  market : MarketId
  position : PositionId
  owner : AccountId
  side : Side
  unrealizedPnl : Amount
  leverage : Leverage
  /-- The higher, the earlier. -/
  score : Decimal
  updatedAt : Instant
deriving DecidableEq

namespace Candidate

/-- The candidate with its score worked out. -/
def scored (market : MarketId) (position : PositionId) (owner : AccountId) (side : Side)
    (pnl : Amount) (leverage : Leverage) (now : Instant) : Except ArithmeticError Candidate := do
  let score ← deleverageScore pnl leverage
  return ⟨market, position, owner, side, pnl, leverage, score, now⟩

/-- Whether there is a gain to take. -/
def isProfitable (c : Candidate) : Bool :=
  decide (Decimal.zero < c.unrealizedPnl)

/-- The queue the candidate belongs in. -/
def lane (c : Candidate) : Lane :=
  ⟨c.market, c.side⟩

end Candidate

/-- What is reported about a position that changed. -/
inductive Notice where
  /-- The position gains, and this is what it looks like. -/
  | gaining (candidate : Candidate)
  /-- The position is closed or gains nothing. -/
  | left (market : MarketId) (position : PositionId) (side : Side)
deriving DecidableEq

/-- The notice about a position as it stands. -/
def Position.notice (p : Position) (now : Instant) : Except ArithmeticError Notice :=
  if p.isProfitable then do
    let candidate ← Candidate.scored p.market p.id p.owner p.side p.unrealizedPnl p.leverage now
    return .gaining candidate
  else .ok (.left p.market p.id p.side)

end Clearing

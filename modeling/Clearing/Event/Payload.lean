import Clearing.Deleverage.Terms
import Clearing.Margin.Tier

/-!
What happens in the clearing house, told as events.

There is one record for each kind of event.  Together they tell everything that changes a
position's existence, size, collateral or funding, so that the set of open positions can be
rebuilt from them.
-/

namespace Clearing

/-- A position was opened. -/
structure PositionOpened where
  position : PositionId
  market : MarketId
  owner : AccountId
  side : Side
  size : Decimal
  collateral : Amount
  entryPrice : Price
  leverage : Leverage
  liquidationPrice : Decimal
deriving DecidableEq

/-- Size or collateral of a position changed at the will of its owner. -/
structure PositionModified where
  position : PositionId
  market : MarketId
  owner : AccountId
  oldSize : Decimal
  newSize : Decimal
  oldCollateral : Amount
  newCollateral : Amount
  realizedPnl : Amount
  liquidationPrice : Decimal
deriving DecidableEq

/-- Why a position was closed. -/
inductive CloseReason where
  | userClose
  | liquidation
  | autoDeleverage
deriving DecidableEq

/-- A position was closed. -/
structure PositionClosed where
  position : PositionId
  market : MarketId
  owner : AccountId
  side : Side
  size : Decimal
  exitPrice : Price
  realizedPnl : Amount
  reason : CloseReason
deriving DecidableEq

/-- A position was liquidated. -/
structure PositionLiquidated where
  position : PositionId
  market : MarketId
  owner : AccountId
  size : Decimal
  price : Price
  realizedPnl : Amount
deriving DecidableEq

/-- Positions were deleveraged to cover a liquidation. -/
structure DeleverageTriggered where
  execution : Nat
  market : MarketId
  liquidatedPosition : PositionId
  liquidatedSide : Side
  sizeToClose : Decimal
  totalClosed : Decimal
  price : Price
  fullyCovered : Bool
deriving DecidableEq

/-- A position was reduced or closed by deleveraging. -/
structure PositionDeleveraged where
  execution : Nat
  position : PositionId
  owner : AccountId
  rank : Nat
  sizeClosed : Decimal
  realizedPnl : Amount
deriving DecidableEq

/-- The number of candidates on one side of a market changed. -/
structure QueueLengthChanged where
  market : MarketId
  side : Side
  oldLength : Nat
  newLength : Nat
deriving DecidableEq

/-- Funding was settled in a market. -/
structure FundingApplied where
  market : MarketId
  rate : Bps
  periods : UInt64
  totalPaid : Amount
  positions : Nat
deriving DecidableEq

/-- A position paid funding, or received it where the amount is positive. -/
structure FundingPaid where
  market : MarketId
  position : PositionId
  owner : AccountId
  amount : Amount
deriving DecidableEq

/-- The margin tier of a market was replaced. -/
structure MarginUpdated where
  market : MarketId
  previous : Option MarginTier
  tier : MarginTier
deriving DecidableEq

/-- The deleveraging terms of a market were replaced. -/
structure DeleverageUpdated where
  market : MarketId
  terms : DeleverageTerms
deriving DecidableEq

/-- What an event tells. -/
inductive Payload where
  | positionOpened (e : PositionOpened)
  | positionModified (e : PositionModified)
  | positionClosed (e : PositionClosed)
  | positionLiquidated (e : PositionLiquidated)
  | deleverageTriggered (e : DeleverageTriggered)
  | positionDeleveraged (e : PositionDeleveraged)
  | queueLengthChanged (e : QueueLengthChanged)
  | fundingApplied (e : FundingApplied)
  | fundingPaid (e : FundingPaid)
  | marginUpdated (e : MarginUpdated)
  | deleverageUpdated (e : DeleverageUpdated)
deriving DecidableEq

end Clearing

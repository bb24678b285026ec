import Clearing.Ledger.Basic

/-!
Opening, changing and closing positions.

Whatever adds risk, by size or by taking out collateral, is held to the initial margin of an
active market.  A reduction realizes its share of the gain; closing realizes all of it together
with the funding the position has accumulated.
-/

namespace Clearing

/-- An order to open a position. -/
structure Order where
  owner : AccountId
  market : MarketId
  side : Side
  size : Decimal
  collateral : Amount
  entryPrice : Price
  leverage : Leverage
deriving DecidableEq

/-- A position as it was when it was closed, and what came of it. -/
structure Closure where
  position : Position
  exitPrice : Price
  /-- The gain at the exit price and the accumulated funding. -/
  realizedPnl : Amount
deriving DecidableEq

/-- What a forced reduction took from a position. -/
structure Reduction where
  position : PositionId
  owner : AccountId
  market : MarketId
  side : Side
  sizeClosed : Decimal
  realizedPnl : Amount
  fullyClosed : Bool
deriving DecidableEq

/-- The position an order opens. -/
def Order.toPosition (order : Order) (id : PositionId) (liquidationPrice : Decimal)
    (now : Instant) : Position where
  id := id
  market := order.market
  owner := order.owner
  side := order.side
  size := order.size
  collateral := order.collateral
  entryPrice := order.entryPrice
  leverage := order.leverage
  fundingIndex := .zero
  accumulatedFunding := .zero
  realizedPnl := .zero
  unrealizedPnl := .zero
  liquidationPrice := liquidationPrice
  openedAt := now
  updatedAt := now

namespace Ledger

/-- The checks on an order that come before any price: size, collateral, market and leverage. -/
def acceptOrder (order : Order) (schedule : MarginSchedule) : Except LedgerError MarginTier := do
  if order.size ≤ .zero then throw (.invalidSize order.size)
  if order.collateral ≤ .zero then throw (.insufficientCollateral order.collateral)
  let some tier := schedule.activeTier? order.market
    | throw (.marketNotConfigured order.market)
  if ¬ order.leverage ≤ tier.maxLeverage then
    throw (.leverageExceedsMax order.leverage tier.maxLeverage)
  return tier

/-- Opens a position and returns its number. -/
def openPosition (l : Ledger) (order : Order) (schedule : MarginSchedule) (now : Instant) :
    Attempt (Posted PositionId) := do
  let tier ← refusing (fun cause => cause) (acceptOrder order schedule)
  let notional ← computing (order.size.mul order.entryPrice "position notional")
  requireInitialMargin tier notional order.collateral
  let price ← inTermsOf .arithmetic
    (liquidationPrice order.side order.size order.entryPrice order.collateral tier)
  let number := Nat.max l.nextId 1
  let p := order.toPosition ⟨number⟩ price now
  let oi ← computing ((l.openInterest p.market).change p.side p.size)
  let portfolio ← computing (Portfolio.ofPositions p.owner (l.positionsOf p.owner ++ [p]) now)
  let notice ← computing (p.notice now)
  let next :=
    ((({ l with nextId := number + 1 }).settleTotals p.market oi portfolio).enroll p).record
      ⟨p, p.isLiquidatableAt p.entryPrice⟩
  return ⟨p.id, next, [notice]⟩

/--
Writes a change to a position.  Its liquidation price, gain and flag are worked out anew at the
mark price, and open interest follows the change in size.
-/
def amend (l : Ledger) (current updated : Position) (mark : Price) (tier : MarginTier)
    (now : Instant) : Attempt (Ledger × Notice) := do
  let price ← inTermsOf .arithmetic
    (liquidationPrice updated.side updated.size updated.entryPrice updated.collateral tier)
  let pnl ← computing (updated.pnlAt mark)
  let p : Position :=
    { updated with liquidationPrice := price, unrealizedPnl := pnl, updatedAt := now }
  let delta ← computing (p.size.sub current.size "open interest delta")
  let oi ← computing ((l.openInterest p.market).change p.side delta)
  let portfolio ← computing (Portfolio.ofPositions p.owner (l.positionsWith p) now)
  let notice ← computing (p.notice now)
  return ((l.settleTotals p.market oi portfolio).record ⟨p, p.isLiquidatableAt mark⟩, notice)

/-- The part of a change that concerns the size: the changed position, and what it realizes. -/
def resize (current : Position) (sizeDelta : Decimal) (pnl : Amount) (price : Price) :
    Attempt (Position × Amount) := do
  if sizeDelta < .zero then
    let reduction := -sizeDelta
    if current.size ≤ reduction then refuse (.invalidSize sizeDelta)
    let realized ← computing (proportionalPnl pnl reduction current.size)
    let size ← computing (current.size.sub reduction "position size")
    return ({ current with size := size }, realized)
  else if .zero < sizeDelta then
    let entry ← computing
      (averagedEntryPrice current.size current.entryPrice sizeDelta price)
    let size ← computing (current.size.add sizeDelta "position size")
    return ({ current with entryPrice := entry, size := size }, .zero)
  else return (current, .zero)

/--
Changes size and collateral of a position by signed amounts, and returns what a reduction
realized.  A reduction must leave some of the position.
-/
def modify (l : Ledger) (id : PositionId) (sizeDelta : Decimal) (collateralDelta : Amount)
    (price : Price) (schedule : MarginSchedule) (now : Instant) : Attempt (Posted Amount) := do
  let current ← l.get id
  let tier? :=
    if .zero < sizeDelta then schedule.activeTier? current.market
    else schedule.tier? current.market
  let some tier := tier? | refuse (.marketNotConfigured current.market)
  let pnl ← computing (current.pnlAt price)
  let (resized, realized) ← resize current sizeDelta pnl price
  let collateral ← computing (current.collateral.add collateralDelta "collateral")
  if collateral ≤ .zero then refuse (.insufficientCollateral current.collateral)
  let updated := { resized with collateral := collateral }
  if .zero < sizeDelta ∨ collateralDelta < .zero then
    let notional ← computing updated.notional
    requireInitialMargin tier notional collateral
  let total ← computing (updated.realizedPnl.add realized "realized pnl")
  let (next, notice) ←
    l.amend current { updated with realizedPnl := total } price tier now
  return ⟨realized, next, [notice]⟩

/-- Closes a position. -/
def close (l : Ledger) (id : PositionId) (price : Price) (now : Instant) :
    Attempt (Posted Closure) := do
  let p ← l.get id
  let pnl ← computing (p.pnlAt price)
  let realized ← computing (pnl.add p.accumulatedFunding "close pnl")
  let oi ← computing ((l.openInterest p.market).change p.side (-p.size))
  let portfolio ← computing
    (Portfolio.ofPositions p.owner ((l.positionsOf p.owner).filter (·.id ≠ id)) now)
  let next := (l.settleTotals p.market oi portfolio).dismiss p
  return ⟨⟨p, price, realized⟩, next, [.left p.market id p.side]⟩

/--
Takes `amount` off a position against the will of its owner.  No margin is asked for, and an
amount that covers the whole size closes the position.
-/
def forceReduce (l : Ledger) (id : PositionId) (amount : Decimal) (price : Price)
    (schedule : MarginSchedule) (now : Instant) : Attempt (Posted Reduction) := do
  if amount ≤ .zero then refuse (.invalidSize amount)
  let current ← l.get id
  let reduction : Decimal → Amount → Bool → Reduction :=
    fun size realized whole =>
      ⟨id, current.owner, current.market, current.side, size, realized, whole⟩
  if current.size ≤ amount then
    let closed ← l.close id price now
    let taken := reduction current.size closed.result.realizedPnl true
    return ⟨taken, closed.ledger, closed.notices⟩
  else
    let some tier := schedule.tier? current.market
      | refuse (.marketNotConfigured current.market)
    let pnl ← computing (current.pnlAt price)
    let realized ← computing (proportionalPnl pnl amount current.size)
    let size ← computing (current.size.sub amount "position size")
    let total ← computing (current.realizedPnl.add realized "realized pnl")
    let (next, notice) ←
      l.amend current { current with size := size, realizedPnl := total } price tier now
    return ⟨reduction amount realized false, next, [notice]⟩

end Ledger

end Clearing

import Clearing.House.Basic

/-!
The calls of traders and of the liquidator.
-/

namespace Clearing

namespace House

/-- The event that tells of an opened position. -/
def openedEvent (p : Position) : Payload :=
  .positionOpened {
    position := p.id
    market := p.market
    owner := p.owner
    side := p.side
    size := p.size
    collateral := p.collateral
    entryPrice := p.entryPrice
    leverage := p.leverage
    liquidationPrice := p.liquidationPrice }

/-- The event that tells of a changed position. -/
def modifiedEvent (before after : Position) (realized : Amount) : Payload :=
  .positionModified {
    position := before.id
    market := before.market
    owner := before.owner
    oldSize := before.size
    newSize := after.size
    oldCollateral := before.collateral
    newCollateral := after.collateral
    realizedPnl := realized
    liquidationPrice := after.liquidationPrice }

/-- The event that tells of a closed position. -/
def closedEvent (p : Position) (price : Price) (realized : Amount) (reason : CloseReason) :
    Payload :=
  .positionClosed {
    position := p.id
    market := p.market
    owner := p.owner
    side := p.side
    size := p.size
    exitPrice := price
    realizedPnl := realized
    reason := reason }

/-- Opens a position, at the price the order names. -/
def openPosition (h : House) (caller : AccountId) (order : Order) :
    Attempt (PositionId × House) := do
  h.requireRole .tradingEntry caller
  h.requireRunning .positions order.market
  let posted ← inTermsOf .ledger (h.ledger.openPosition order h.schedule h.now)
  let opened := (posted.ledger.position? posted.result).toList.map openedEvent
  return (posted.result, h.post order.market posted opened)

/-- Changes size and collateral of a position, at the current price. -/
def modifyPosition (h : House) (caller : AccountId) (id : PositionId) (sizeDelta : Decimal)
    (collateralDelta : Amount) : Attempt (Amount × House) := do
  h.requireRole .tradingEntry caller
  let before ← h.requirePosition id
  h.requireRunning .positions before.market
  let price ← h.requirePrice before.market
  let posted ← inTermsOf .ledger
    (h.ledger.modify id sizeDelta collateralDelta price h.schedule h.now)
  let modified := (posted.ledger.position? id).toList.map fun after =>
    modifiedEvent before after posted.result
  return (posted.result, h.post before.market posted modified)

/-- Closes a position at the current price. -/
def closePosition (h : House) (caller : AccountId) (id : PositionId) :
    Attempt (Amount × House) := do
  h.requireRole .tradingEntry caller
  let p ← h.requirePosition id
  h.requireRunning .positions p.market
  let price ← h.requirePrice p.market
  let posted ← inTermsOf .ledger (h.ledger.close id price h.now)
  let closed := posted.result
  return (closed.realizedPnl,
    h.post p.market posted
      [closedEvent closed.position closed.exitPrice closed.realizedPnl .userClose])

/-- Closes a position against the will of its owner, at the price the liquidator names. -/
def forceClose (h : House) (caller : AccountId) (id : PositionId) (price : Price)
    (isLiquidation : Bool) : Attempt (Amount × House) := do
  h.requireRole .liquidator caller
  let p ← h.requirePosition id
  h.requireRunning .positions p.market
  let posted ← inTermsOf .ledger (h.ledger.close id price h.now)
  let closed := posted.result
  let events :=
    if isLiquidation then
      [closedEvent closed.position closed.exitPrice closed.realizedPnl .liquidation,
        .positionLiquidated {
          position := id
          market := p.market
          owner := closed.position.owner
          size := closed.position.size
          price := price
          realizedPnl := closed.realizedPnl }]
    else [closedEvent closed.position closed.exitPrice closed.realizedPnl .autoDeleverage]
  return (closed.realizedPnl, h.post p.market posted events)

/-- The events about one deleveraged position, which was `before` if it was open at all. -/
def deleveragedEvents (shortfall : Shortfall) (execution : Nat) (before : Option Position)
    (d : Deleveraged) : List Payload :=
  .positionDeleveraged {
      execution := execution
      position := d.position
      owner := d.owner
      rank := d.rank
      sizeClosed := d.sizeClosed
      realizedPnl := d.realizedPnl } ::
    if d.fullyClosed then
      before.toList.map fun p =>
        closedEvent { p with market := shortfall.market } shortfall.price d.realizedPnl
          .autoDeleverage
    else []

/-- Covers what a liquidation left unfilled from the other side of its market. -/
def executeDeleverage (h : House) (caller : AccountId) (shortfall : Shortfall) :
    Attempt (Coverage × House) := do
  h.requireRole .liquidator caller
  h.requireRunning .deleveraging shortfall.market
  let (coverage, queue, ledger) ← inTermsOf .deleverage
    (h.queue.execute h.ledger h.schedule shortfall h.now)
  let triggered : Payload := .deleverageTriggered {
    execution := coverage.execution
    market := shortfall.market
    liquidatedPosition := shortfall.liquidated
    liquidatedSide := shortfall.side
    sizeToClose := shortfall.size
    totalClosed := coverage.totalClosed
    price := shortfall.price
    fullyCovered := coverage.fullyCovered }
  let before := (h.queue.candidates shortfall.lane).filterMap fun c => h.ledger.position? c.position
  let deleveraged := coverage.deleveraged.flatMap fun d =>
    deleveragedEvents shortfall coverage.execution (before.find? (·.id = d.position)) d
  return (coverage,
    { h with ledger := ledger, queue := queue }.record
      (triggered :: deleveraged ++ queueChanges h.queue queue shortfall.market))

end House

end Clearing

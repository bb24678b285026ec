import Clearing.House.Call
import Clearing.InPlace.Deleverage
import Clearing.InPlace.Settlement

/-!
The calls of a clearing house, in place.

Each call passes its gates, lets a component work on its part of the house, and then writes its
events one by one.
-/

namespace Clearing

namespace House

/-! ### Parts -/

/-- The schedule alone. -/
def schedulePart : Part House MarginSchedule where
  get := (·.schedule)
  set h schedule := { h with schedule := schedule }
  get_set _ _ := rfl
  set_get _ := rfl

/-- The queue alone. -/
def queuePart : Part House DeleverageQueue where
  get := (·.queue)
  set h queue := { h with queue := queue }
  get_set _ _ := rfl
  set_get _ := rfl

/-- The funding book alone. -/
def fundingPart : Part House FundingBook where
  get := (·.funding)
  set h funding := { h with funding := funding }
  get_set _ _ := rfl
  set_get _ := rfl

/-- The ledger, followed by the queue. -/
def tradingPart : Part House (Observed DeleverageQueue) where
  get h := ⟨h.ledger, h.queue⟩
  set h s := { h with ledger := s.ledger, queue := s.observer }
  get_set _ _ := rfl
  set_get _ := rfl

/-- The funding book and the ledger. -/
def settlingPart : Part House FundedLedger where
  get h := ⟨h.funding, h.ledger⟩
  set h s := { h with funding := s.book, ledger := s.ledger }
  get_set _ _ := rfl
  set_get _ := rfl

namespace InPlace

/-! ### Gates and events -/

/-- The caller must have a role. -/
def requireRole (role : Role) (caller : AccountId) : Edit House HouseError Unit :=
  .check (·.requireRole role caller)

/-- The activity must not be paused, nor the market halted. -/
def requireRunning (activity : Activity) (market : MarketId) : Edit House HouseError Unit :=
  .check (·.requireRunning activity market)

/-- Lets the ledger work, followed by the queue. -/
def trading {α : Type} (x : Edit (Observed DeleverageQueue) LedgerError α) :
    Edit House HouseError α :=
  .within tradingPart (x.reworded .ledger)

/-- Writes an event under the next number. -/
def emit (payload : Payload) : Edit House HouseError Unit := do
  let id ← .read (·.journal.nextId)
  .write fun h => { h with journal := { h.journal with nextId := id + 1 } }
  .write fun h => { h with journal := h.journal.append ⟨id, h.now, payload⟩ }

/-- Writes events one by one. -/
def emitAll (payloads : List Payload) : Edit House HouseError Unit :=
  payloads.forM emit

/-- How many candidates each side of a market has. -/
def queueLengths (market : MarketId) : Edit House HouseError (Side → Nat) :=
  .read fun h side => h.queue.length ⟨market, side⟩

/-- Writes events about the sides whose number of candidates is another than before. -/
def emitQueueChanges (market : MarketId) (before : Side → Nat) : Edit House HouseError Unit := do
  let after ← queueLengths market
  [Side.long, Side.short].forM fun side =>
    if before side ≠ after side then
      emitAll [.queueLengthChanged ⟨market, side, before side, after side⟩]
    else pure ()

/-! ### Trading -/

/-- Opens a position, at the price the order names. -/
def openPosition (caller : AccountId) (order : Order) : Edit House HouseError PositionId := do
  requireRole .tradingEntry caller
  requireRunning .positions order.market
  let before ← queueLengths order.market
  let schedule ← .read (·.schedule)
  let now ← .read (·.now)
  let id ← trading (Ledger.InPlace.openPosition order schedule now)
  let p ← .check (·.requirePosition id)
  emitAll [openedEvent p]
  emitQueueChanges order.market before
  return id

/-- Changes size and collateral of a position, at the current price. -/
def modifyPosition (caller : AccountId) (id : PositionId) (sizeDelta : Decimal)
    (collateralDelta : Amount) : Edit House HouseError Amount := do
  requireRole .tradingEntry caller
  let p ← .check (·.requirePosition id)
  requireRunning .positions p.market
  let price ← .check (·.requirePrice p.market)
  let before ← queueLengths p.market
  let schedule ← .read (·.schedule)
  let now ← .read (·.now)
  let realized ← trading
    (Ledger.InPlace.modify id sizeDelta collateralDelta price schedule now)
  let after? ← .read (·.ledger.position? id)
  emitAll (after?.toList.map fun after => modifiedEvent p after realized)
  emitQueueChanges p.market before
  return realized

/-- Closes a position at the current price. -/
def closePosition (caller : AccountId) (id : PositionId) : Edit House HouseError Amount := do
  requireRole .tradingEntry caller
  let p ← .check (·.requirePosition id)
  requireRunning .positions p.market
  let price ← .check (·.requirePrice p.market)
  let before ← queueLengths p.market
  let now ← .read (·.now)
  let closed ← trading (Ledger.InPlace.close id price now)
  emitAll [closedEvent closed.position closed.exitPrice closed.realizedPnl .userClose]
  emitQueueChanges p.market before
  return closed.realizedPnl

/-- Closes a position against the will of its owner, at the price the liquidator names. -/
def forceClose (caller : AccountId) (id : PositionId) (price : Price) (isLiquidation : Bool) :
    Edit House HouseError Amount := do
  requireRole .liquidator caller
  let p ← .check (·.requirePosition id)
  requireRunning .positions p.market
  let before ← queueLengths p.market
  let now ← .read (·.now)
  let closed ← trading (Ledger.InPlace.close id price now)
  emitAll [closedEvent closed.position closed.exitPrice closed.realizedPnl
    (if isLiquidation then .liquidation else .autoDeleverage)]
  if isLiquidation then
    emitAll [.positionLiquidated {
      position := id
      market := p.market
      owner := closed.position.owner
      size := closed.position.size
      price := price
      realizedPnl := closed.realizedPnl }]
  emitQueueChanges p.market before
  return closed.realizedPnl

/-- Covers what a liquidation left unfilled from the other side of its market. -/
def executeDeleverage (caller : AccountId) (shortfall : Shortfall) :
    Edit House HouseError Coverage := do
  requireRole .liquidator caller
  requireRunning .deleveraging shortfall.market
  let positions ← .read fun h =>
    (h.queue.candidates shortfall.lane).filterMap fun c => h.ledger.position? c.position
  let before ← queueLengths shortfall.market
  let schedule ← .read (·.schedule)
  let now ← .read (·.now)
  let coverage ← .within tradingPart <|
    (DeleverageQueue.InPlace.execute schedule shortfall now).reworded .deleverage
  emitAll [.deleverageTriggered {
    execution := coverage.execution
    market := shortfall.market
    liquidatedPosition := shortfall.liquidated
    liquidatedSide := shortfall.side
    sizeToClose := shortfall.size
    totalClosed := coverage.totalClosed
    price := shortfall.price
    fullyCovered := coverage.fullyCovered }]
  coverage.deleveraged.forM fun d => emitAll
    (deleveragedEvents shortfall coverage.execution (positions.find? (·.id = d.position)) d)
  emitQueueChanges shortfall.market before
  return coverage

/-! ### Upkeep -/

/-- Marks every position of a market at the current price. -/
def refreshMarket (caller : AccountId) (market : MarketId) : Edit House HouseError Refresh := do
  requireRole .keeper caller
  requireRunning .positions market
  let price ← .check (·.requirePrice market)
  let refreshed ← .read fun h => (h.ledger.idsIn market).length
  let before ← queueLengths market
  let now ← .read (·.now)
  let liquidatable ← trading (Ledger.InPlace.refreshMarket market price now)
  emitQueueChanges market before
  return ⟨market, refreshed, liquidatable⟩

/-- Settles the funding of a market. -/
def settleFunding (caller : AccountId) (market : MarketId) :
    Edit House HouseError FundingSettlement := do
  requireRole .keeper caller
  requireRunning .funding market
  let now ← .read (·.now)
  let settlement ← .within settlingPart <|
    (FundingBook.InPlace.settle market now).reworded .funding
  emitAll (settlementEvents settlement)
  return settlement

/-! ### Administration -/

/-- Installs the margin tier of a market. -/
def configureMargin (caller : AccountId) (market : MarketId) (tier : MarginTier) :
    Edit House HouseError Unit := do
  requireRole .riskManager caller
  let previous ← .within schedulePart <|
    (MarginSchedule.InPlace.install market tier).reworded .margin
  emitAll [.marginUpdated ⟨market, previous, tier⟩]

/-- Switches a market on or off. -/
def setMarketActive (caller : AccountId) (market : MarketId) (active : Bool) :
    Edit House HouseError Unit := do
  requireRole .riskManager caller
  let previous ← .read (·.schedule.tier? market)
  .within schedulePart <| (MarginSchedule.InPlace.setActive market active).reworded .margin
  let tier? ← .read (·.schedule.tier? market)
  emitAll (tier?.toList.map fun tier => .marginUpdated ⟨market, previous, tier⟩)

/-- Installs the deleveraging terms of a market, active. -/
def configureDeleverage (caller : AccountId) (market : MarketId) (insuranceThreshold : Bps)
    (maxPositions : UInt32) (gracePeriod : UInt64) : Edit House HouseError Unit := do
  requireRole .riskManager caller
  let terms : DeleverageTerms := ⟨insuranceThreshold, maxPositions, gracePeriod, true⟩
  let _ ← .within queuePart <|
    (DeleverageQueue.InPlace.configure market terms).reworded .deleverage
  emitAll [.deleverageUpdated ⟨market, terms⟩]

/-- Switches deleveraging in a market on or off, and says which it is now. -/
def toggleDeleverage (caller : AccountId) (market : MarketId) : Edit House HouseError Bool := do
  requireRole .riskManager caller
  let active ← .within queuePart <| (DeleverageQueue.InPlace.toggle market).reworded .deleverage
  let terms? ← .read (·.queue.terms? market)
  emitAll (terms?.toList.map fun terms => .deleverageUpdated ⟨market, terms⟩)
  return active

/-- Installs the funding terms of a market. -/
def configureFunding (caller : AccountId) (market : MarketId) (terms : FundingTerms) :
    Edit House HouseError Unit := do
  requireRole .riskManager caller
  let now ← .read (·.now)
  let _ ← .within fundingPart <|
    (FundingBook.InPlace.configure market terms now).reworded .funding

/-! ### Calls -/

/-- Carries out a call. -/
def answer : Call → Edit House HouseError Reply
  | .setTime now => do
    .write (·.setTime now)
    return .done
  | .advanceTime millis => do
    .write (·.advanceTime millis)
    return .done
  | .replaceRoles roles => do
    .write fun h => { h with roles := roles }
    return .done
  | .replacePrices prices => do
    .write fun h => { h with prices := prices }
    return .done
  | .replaceSafeguards safeguards => do
    .write fun h => { h with safeguards := safeguards }
    return .done
  | .openPosition caller order => .opened <$> openPosition caller order
  | .modifyPosition caller id sizeDelta collateralDelta =>
    .realized <$> modifyPosition caller id sizeDelta collateralDelta
  | .closePosition caller id => .realized <$> closePosition caller id
  | .forceClose caller id price isLiquidation =>
    .realized <$> forceClose caller id price isLiquidation
  | .executeDeleverage caller shortfall => .covered <$> executeDeleverage caller shortfall
  | .refreshMarket caller market => .refreshed <$> refreshMarket caller market
  | .settleFunding caller market => .settled <$> settleFunding caller market
  | .configureMargin caller market tier => (fun _ => .done) <$> configureMargin caller market tier
  | .setMarketActive caller market active =>
    (fun _ => .done) <$> setMarketActive caller market active
  | .configureDeleverage caller market insuranceThreshold maxPositions gracePeriod =>
    (fun _ => .done) <$>
      configureDeleverage caller market insuranceThreshold maxPositions gracePeriod
  | .toggleDeleverage caller market => .active <$> toggleDeleverage caller market
  | .configureFunding caller market terms =>
    (fun _ => .done) <$> configureFunding caller market terms

/-- Makes a call: the reply or the cause of a refusal, and the house as the call left it. -/
def perform (h : House) (call : Call) : Except Stop (Except HouseError Reply × House) :=
  (answer call).outcome h

/-- The house after a run of calls, each made in the house as the one before left it. -/
def run (h : House) (calls : List Call) : Except Stop House :=
  calls.foldlM (fun h call => (perform h call).map (·.2)) h

end InPlace

end House

end Clearing

import Clearing.House.Administration
import Clearing.House.Trading
import Clearing.House.Upkeep
import Clearing.Run

/-!
Calls as data, and runs of them.

`Call` lists everything that can be asked of a clearing house.  Roles, prices and safeguards are
kept by others, who may put anything in their place at any time.

A call that is refused leaves the house as it was, so a run goes on after it.  A call that stops
leaves no house to go on with, and ends the run.
-/

namespace Clearing

namespace House

/-- What can be asked of a clearing house, and by whom. -/
inductive Call where
  | setTime (now : Instant)
  | advanceTime (millis : Int64)
  | replaceRoles (roles : Roles)
  | replacePrices (prices : PriceBook)
  | replaceSafeguards (safeguards : Safeguards)
  | openPosition (caller : AccountId) (order : Order)
  | modifyPosition (caller : AccountId) (id : PositionId) (sizeDelta : Decimal)
      (collateralDelta : Amount)
  | closePosition (caller : AccountId) (id : PositionId)
  | forceClose (caller : AccountId) (id : PositionId) (price : Price) (isLiquidation : Bool)
  | executeDeleverage (caller : AccountId) (shortfall : Shortfall)
  | refreshMarket (caller : AccountId) (market : MarketId)
  | settleFunding (caller : AccountId) (market : MarketId)
  | configureMargin (caller : AccountId) (market : MarketId) (tier : MarginTier)
  | setMarketActive (caller : AccountId) (market : MarketId) (active : Bool)
  | configureDeleverage (caller : AccountId) (market : MarketId) (insuranceThreshold : Bps)
      (maxPositions : UInt32) (gracePeriod : UInt64)
  | toggleDeleverage (caller : AccountId) (market : MarketId)
  | configureFunding (caller : AccountId) (market : MarketId) (terms : FundingTerms)
deriving DecidableEq

/-- What a call answers when it is not refused. -/
inductive Reply where
  | done
  | opened (id : PositionId)
  | realized (pnl : Amount)
  | covered (coverage : Coverage)
  | refreshed (refresh : Refresh)
  | settled (settlement : FundingSettlement)
  | active (now : Bool)
deriving DecidableEq

/-- The reply to a call and the house after it. -/
def answer (h : House) : Call → Attempt (Reply × House)
  | .setTime now => .ok (.done, h.setTime now)
  | .advanceTime millis => .ok (.done, h.advanceTime millis)
  | .replaceRoles roles => .ok (.done, { h with roles := roles })
  | .replacePrices prices => .ok (.done, { h with prices := prices })
  | .replaceSafeguards safeguards => .ok (.done, { h with safeguards := safeguards })
  | .openPosition caller order => giving .opened (h.openPosition caller order)
  | .modifyPosition caller id sizeDelta collateralDelta =>
    giving .realized (h.modifyPosition caller id sizeDelta collateralDelta)
  | .closePosition caller id => giving .realized (h.closePosition caller id)
  | .forceClose caller id price isLiquidation =>
    giving .realized (h.forceClose caller id price isLiquidation)
  | .executeDeleverage caller shortfall => giving .covered (h.executeDeleverage caller shortfall)
  | .refreshMarket caller market => giving .refreshed (h.refreshMarket caller market)
  | .settleFunding caller market => giving .settled (h.settleFunding caller market)
  | .configureMargin caller market tier =>
    giving (fun _ => .done) (h.configureMargin caller market tier)
  | .setMarketActive caller market active =>
    giving (fun _ => .done) (h.setMarketActive caller market active)
  | .configureDeleverage caller market insuranceThreshold maxPositions gracePeriod =>
    giving (fun _ => .done)
      (h.configureDeleverage caller market insuranceThreshold maxPositions gracePeriod)
  | .toggleDeleverage caller market => giving .active (h.toggleDeleverage caller market)
  | .configureFunding caller market terms =>
    giving (fun _ => .done) (h.configureFunding caller market terms)
where
  /-- Words the value of a call as a reply. -/
  giving {α : Type} (reply : α → Reply) (x : Attempt (α × House)) : Attempt (Reply × House) :=
    x.map fun y => (reply y.1, y.2)

/-- Makes a call: the reply or the cause of a refusal, and the house after it. -/
def perform (h : House) (call : Call) : Except Stop (Except HouseError Reply × House) :=
  orStay h (h.answer call)

/-- The house after a run of calls. -/
def run (h : House) (calls : List Call) : Except Stop House :=
  calls.foldlM (fun h call => (h.perform call).map (·.2)) h

end House

end Clearing

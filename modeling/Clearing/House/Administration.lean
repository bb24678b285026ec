import Clearing.House.Basic

/-!
The calls of the risk manager.

Terms can be changed while trading is paused or halted, so these calls ask for the role and
nothing else.
-/

namespace Clearing

namespace House

/-- Installs the margin tier of a market. -/
def configureMargin (h : House) (caller : AccountId) (market : MarketId) (tier : MarginTier) :
    Attempt (Unit × House) := do
  h.requireRole .riskManager caller
  let (previous, schedule) ← refusing .margin (h.schedule.install market tier)
  return ((), { h with schedule := schedule }.record
    [.marginUpdated ⟨market, previous, tier⟩])

/-- Switches a market on or off. -/
def setMarketActive (h : House) (caller : AccountId) (market : MarketId) (active : Bool) :
    Attempt (Unit × House) := do
  h.requireRole .riskManager caller
  let schedule ← refusing .margin (h.schedule.setActive market active)
  let updated := (schedule.tier? market).toList.map fun tier =>
    Payload.marginUpdated ⟨market, h.schedule.tier? market, tier⟩
  return ((), { h with schedule := schedule }.record updated)

/-- Installs the deleveraging terms of a market, active. -/
def configureDeleverage (h : House) (caller : AccountId) (market : MarketId)
    (insuranceThreshold : Bps) (maxPositions : UInt32) (gracePeriod : UInt64) :
    Attempt (Unit × House) := do
  h.requireRole .riskManager caller
  let terms : DeleverageTerms := ⟨insuranceThreshold, maxPositions, gracePeriod, true⟩
  let (_, queue) ← refusing .deleverage (h.queue.configure market terms)
  return ((), { h with queue := queue }.record [.deleverageUpdated ⟨market, terms⟩])

/-- Switches deleveraging in a market on or off, and says which it is now. -/
def toggleDeleverage (h : House) (caller : AccountId) (market : MarketId) :
    Attempt (Bool × House) := do
  h.requireRole .riskManager caller
  let (active, queue) ← refusing .deleverage (h.queue.toggle market)
  let updated := (queue.terms? market).toList.map fun terms =>
    Payload.deleverageUpdated ⟨market, terms⟩
  return (active, { h with queue := queue }.record updated)

/-- Installs the funding terms of a market. -/
def configureFunding (h : House) (caller : AccountId) (market : MarketId)
    (terms : FundingTerms) : Attempt (Unit × House) := do
  h.requireRole .riskManager caller
  let (_, funding) ← refusing .funding (h.funding.configure market terms h.now)
  return ((), { h with funding := funding })

end House

end Clearing

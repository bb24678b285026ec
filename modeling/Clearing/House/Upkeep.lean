import Clearing.House.Basic

/-!
The calls of the keeper: marking a market at its price, and settling its funding.
-/

namespace Clearing

/-- What marking a market found. -/
structure Refresh where
  market : MarketId
  refreshed : Nat
  liquidatable : List PositionId
deriving DecidableEq

namespace House

/-- Marks every position of a market at the current price. -/
def refreshMarket (h : House) (caller : AccountId) (market : MarketId) :
    Attempt (Refresh × House) := do
  h.requireRole .keeper caller
  h.requireRunning .positions market
  let price ← h.requirePrice market
  let posted ← refusing .ledger (h.ledger.refreshMarket market price h.now)
  return (⟨market, (h.ledger.idsIn market).length, posted.result⟩, h.post market posted [])

/-- The events about a settlement. -/
def settlementEvents (s : FundingSettlement) : List Payload :=
  (if 0 < s.periods then
    [.fundingApplied {
      market := s.market
      rate := s.rate
      periods := s.periods
      totalPaid := s.totalPaid
      positions := s.payments.length }]
  else []) ++
  s.payments.map fun p =>
    .fundingPaid {
      market := s.market
      position := p.position
      owner := p.owner
      amount := p.amount }

/-- Settles the funding of a market. -/
def settleFunding (h : House) (caller : AccountId) (market : MarketId) :
    Attempt (FundingSettlement × House) := do
  h.requireRole .keeper caller
  h.requireRunning .funding market
  let (settlement, funding, ledger) ← inTermsOf .funding
    (h.funding.settle market h.ledger h.now)
  return (settlement,
    { h with ledger := ledger, funding := funding }.record (settlementEvents settlement))

end House

end Clearing

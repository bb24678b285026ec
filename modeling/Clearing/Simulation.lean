import Clearing.House.Administration
import Clearing.House.Trading
import Clearing.House.Upkeep

/-!
Four scenarios that show a clearing house at work.

A position whose collateral is exactly at its maintenance margin; a liquidation covered by ranked
deleveraging; a settlement of funding; and a position closed in two steps.  Each scenario starts
from a fresh house with standard terms and tells what happened line by line.
-/

namespace Clearing

namespace Simulation

/-- The market of the scenarios on margin, funding and partial closing. -/
def eth : MarketId := ⟨1⟩

/-- The market of the scenario on deleveraging. -/
def btc : MarketId := ⟨2⟩

/-- Who sets the terms. -/
def riskManager : AccountId := ⟨900⟩

/-- Who trades for everybody. -/
def entry : AccountId := ⟨901⟩

/-- Who liquidates. -/
def liquidator : AccountId := ⟨902⟩

/-- Who marks and settles. -/
def keeper : AccountId := ⟨903⟩

/-- A scenario can fail at the setup of its house, or at one of its calls. -/
inductive Fault where
  | setup (cause : SetupError)
  | call (cause : HouseError)
deriving DecidableEq

/-- The steps of a scenario. -/
abbrev Script := Except (Failure Fault)

/-- A call within a scenario. -/
def calling {α : Type} (x : House.Attempt α) : Script α :=
  inTermsOf .call x

/-- A whole number as a decimal. -/
def num (n : Int32) : Decimal := .ofInt32 n

/-- The accounts with their roles. -/
def roles : Roles :=
  [(Role.riskManager, riskManager), (.tradingEntry, entry), (.liquidator, liquidator),
    (.keeper, keeper)].foldl (fun r g => r.grant g.1 g.2) .empty

/-- A fresh house with standard terms. -/
def freshHouse : Script House :=
  refusing .setup (House.ofSetup .standard roles .empty (.clear 0))

/-- Sets the price of a market. -/
def quote (h : House) (market : MarketId) (price : Int32) : House :=
  { h with prices := h.prices.setPrice market (num price) h.now }

/-- An order in whole numbers. -/
def order (owner : UInt64) (market : MarketId) (side : Side)
    (size collateral price : Int32) (leverage : UInt32) : Order :=
  ⟨⟨owner⟩, market, side, num size, num collateral, num price, ⟨leverage⟩⟩

/-- The liquidation price of a position, zero where there is none. -/
def liquidationPriceOf (h : House) (id : PositionId) : Decimal :=
  ((h.ledger.position? id).map (·.liquidationPrice)).getD .zero

/-- The gain of a position, zero where there is none. -/
def unrealizedPnlOf (h : House) (id : PositionId) : Decimal :=
  ((h.ledger.position? id).map (·.unrealizedPnl)).getD .zero

/-- Collateral exactly at the maintenance margin makes the liquidation price zero. -/
def boundaryLiquidation : Script (List String) := do
  let h ← freshHouse
  let h := quote h eth 2000
  -- Four percent maintenance lets the five percent collateral through; then the tier tightens.
  let (_, h) ← calling (h.configureMargin riskManager eth ⟨⟨400⟩, ⟨500⟩, ⟨20⟩, true⟩)
  let (id, h) ← calling (h.openPosition entry (order 1 eth .long 10 1000 2000 20))
  let before := liquidationPriceOf h id
  let (_, h) ← calling (h.configureMargin riskManager eth ⟨⟨500⟩, ⟨501⟩, ⟨20⟩, true⟩)
  let (_, h) ← calling (h.modifyPosition entry id .zero .zero)
  let after := liquidationPriceOf h id
  let liquidatable := (h.ledger.isLiquidatable? id).getD false
  return [
    "Scenario A: Collateral At Maintenance Margin",
    "",
    "  LONG 10 @ $2000 with $1000 collateral, 20x",
    s!"  Liquidation price at 4% maintenance: ${before.text}",
    "  Maintenance raised to 5%, notional $20000, maintenance margin $1000",
    s!"  Liquidation price: ${after.text}, liquidatable: {liquidatable}",
    ""]

/-- A candidate as a line of the ranking. -/
def candidateLine (rank : Nat) (c : Candidate) : String :=
  s!"  #{rank} position {c.position.val}: pnl ${c.unrealizedPnl.text}, {c.leverage.text}x, " ++
    s!"score {c.score.text}"

/-- A deleveraged position as a line. -/
def deleveragedLine (d : Deleveraged) : String :=
  s!"  Deleveraged position {d.position.val} (rank {d.rank}): " ++
    s!"closed {d.sizeClosed.text}, realized ${d.realizedPnl.text}"

/-- A liquidated long position is covered by the shorts with the largest leveraged gains. -/
def rankedDeleveraging : Script (List String) := do
  let h ← freshHouse
  let h := quote h btc 2000
  let (liquidated, h) ← calling (h.openPosition entry (order 10 btc .long 70 11200 2000 10))
  let (_, h) ← calling (h.openPosition entry (order 11 btc .short 50 8000 2000 20))
  let (_, h) ← calling (h.openPosition entry (order 12 btc .short 30 4800 2000 15))
  let (_, h) ← calling (h.openPosition entry (order 13 btc .short 10 1600 2000 25))
  let h := quote h btc 1000
  let (refresh, h) ← calling (h.refreshMarket keeper btc)
  let candidates := h.queue.candidates ⟨btc, .short⟩
  let ranking := ((List.range' 1 candidates.length).zip candidates).map fun c =>
    candidateLine c.1 c.2
  let (coverage, _) ← calling
    (h.executeDeleverage liquidator ⟨btc, liquidated, .long, num 70, num 1000⟩)
  return [
      "Scenario B: Ranked Auto-Deleveraging",
      "",
      s!"  Price drops to $1000, {refresh.liquidatable.length} liquidatable"] ++
    ranking ++ coverage.deleveraged.map deleveragedLine ++ [
      s!"  Covered {coverage.totalClosed.text} of 70, fully covered: {coverage.fullyCovered}",
      ""]

/-- A payment as a line. -/
def paymentLine (p : FundingPayment) : String :=
  s!"  Position {p.position.val} ({p.side.text}): ${p.amount.text}"

/-- Longs outweigh shorts, so they pay the share of the imbalance in the maximum rate. -/
def fundingSettlement : Script (List String) := do
  let h ← freshHouse
  let h := quote h eth 100
  let (_, h) ← calling (h.openPosition entry (order 20 eth .long 600 6000 100 10))
  let (_, h) ← calling (h.openPosition entry (order 21 eth .short 300 3000 100 10))
  let (_, h) ← calling (h.openPosition entry (order 22 eth .short 100 1000 100 10))
  let preview ← calling (h.previewRate eth)
  let h := h.advanceTime 28800000
  let (settlement, _) ← calling (h.settleFunding keeper eth)
  let net ← settlement.netTransfer
  return [
      "Scenario C: Funding Settlement",
      "",
      s!"  Preview rate: {preview.text}",
      s!"  Settled {settlement.periods} period(s) at {settlement.rate.text}"] ++
    settlement.payments.map paymentLine ++ [
      s!"  Net transfer: ${net.text}",
      ""]

/-- Halving a position realizes half its gain. -/
def partialClose : Script (List String) := do
  let h ← freshHouse
  let h := quote h eth 2000
  let (id, h) ← calling (h.openPosition entry (order 30 eth .long 10 2000 2000 10))
  let h := quote h eth 2020
  let (_, h) ← calling (h.refreshMarket keeper eth)
  let unrealized := unrealizedPnlOf h id
  let (realized, h) ← calling (h.modifyPosition entry id (num (-5)) .zero)
  let remaining := unrealizedPnlOf h id
  let (closed, h) ← calling (h.closePosition entry id)
  return [
    "Scenario D: Partial Close",
    "",
    s!"  LONG 10 @ $2000, mark $2020, unrealized ${unrealized.text}",
    s!"  Reduced by 5: realized ${realized.text}, still unrealized ${remaining.text}",
    s!"  Closed remainder for ${closed.text}, {h.journal.events.length} events logged",
    ""]

/-- The lines that head the report. -/
def heading : List String :=
  ["Perpetual Risk Core Simulation", "Isolated Margin, Ranked ADL, Imbalance Funding", ""]

/-- The lines that end the report. -/
def ending : List String :=
  ["", "All simulations completed successfully."]

/-- The report on all scenarios. -/
def report : Script (List String) := do
  let a ← boundaryLiquidation
  let b ← rankedDeleveraging
  let c ← fundingSettlement
  let d ← partialClose
  return heading ++ a ++ b ++ c ++ d ++ ending

end Simulation

end Clearing

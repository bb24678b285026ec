import Clearing.Format.Units
import Clearing.Position.OpenInterest
import Clearing.Position.Portfolio

/-!
How positions, open interest and portfolios are written.
-/

namespace Clearing

open Codec

/-- The names of the fields of a position. -/
def Position.fieldNames : List String :=
  ["id", "market_id", "owner", "side", "size", "collateral", "entry_price", "leverage",
    "funding_index", "accumulated_funding", "realized_pnl", "unrealized_pnl", "liquidation_price",
    "opened_at", "updated_at"]

instance : Codec Position where
  encode x := record Position.fieldNames [.of x.id, .of x.market, .of x.owner, .of x.side,
    .of x.size, .of x.collateral, .of x.entryPrice, .of x.leverage, .of x.fundingIndex,
    .of x.accumulatedFunding, .of x.realizedPnl, .of x.unrealizedPnl, .of x.liquidationPrice,
    .of x.openedAt, .of x.updatedAt]
  decode j := do
    let [id, market, owner, side, size, collateral, entryPrice, leverage, fundingIndex,
      accumulatedFunding, realizedPnl, unrealizedPnl, liquidationPrice, openedAt,
      updatedAt] ← fieldsOf? Position.fieldNames j | none
    return {
      id := ← field id, market := ← field market, owner := ← field owner, side := ← field side,
      size := ← field size, collateral := ← field collateral, entryPrice := ← field entryPrice,
      leverage := ← field leverage, fundingIndex := ← field fundingIndex,
      accumulatedFunding := ← field accumulatedFunding, realizedPnl := ← field realizedPnl,
      unrealizedPnl := ← field unrealizedPnl, liquidationPrice := ← field liquidationPrice,
      openedAt := ← field openedAt, updatedAt := ← field updatedAt }

/-- The names of the fields of an open interest. -/
def OpenInterest.fieldNames : List String :=
  ["long", "short"]

instance : Codec OpenInterest where
  encode x := record OpenInterest.fieldNames [.of x.long, .of x.short]
  decode j := do
    let [long, short] ← fieldsOf? OpenInterest.fieldNames j | none
    return { long := ← field long, short := ← field short }

/-- The names of the fields of a portfolio. -/
def Portfolio.fieldNames : List String :=
  ["owner", "total_collateral", "net_unrealized_pnl", "margin_ratio", "open_positions",
    "updated_at"]

instance : Codec Portfolio where
  encode x := record Portfolio.fieldNames [.of x.owner, .of x.totalCollateral,
    .of x.netUnrealizedPnl, .of x.marginRatio, .of x.openPositions, .of x.updatedAt]
  decode j := do
    let [owner, totalCollateral, netUnrealizedPnl, marginRatio, openPositions,
      updatedAt] ← fieldsOf? Portfolio.fieldNames j | none
    return {
      owner := ← field owner, totalCollateral := ← field totalCollateral,
      netUnrealizedPnl := ← field netUnrealizedPnl, marginRatio := ← field marginRatio,
      openPositions := ← field openPositions, updatedAt := ← field updatedAt }

end Clearing

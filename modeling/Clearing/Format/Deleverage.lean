import Clearing.Deleverage.Queue
import Clearing.Format.Units

/-!
How deleveraging terms, candidates and executions are written.
-/

namespace Clearing

open Codec

/-- The names of the fields of deleveraging terms. -/
def DeleverageTerms.fieldNames : List String :=
  ["insurance_fund_threshold_bps", "max_positions_per_event", "grace_period_secs", "active"]

instance : Codec DeleverageTerms where
  encode x := record DeleverageTerms.fieldNames [.of x.insuranceThreshold, .of x.maxPositions,
    .of x.gracePeriod, .of x.active]
  decode j := do
    let [insuranceThreshold, maxPositions, gracePeriod,
      active] ← fieldsOf? DeleverageTerms.fieldNames j | none
    return {
      insuranceThreshold := ← field insuranceThreshold, maxPositions := ← field maxPositions,
      gracePeriod := ← field gracePeriod, active := ← field active }

/-- The names of the fields of a candidate. -/
def Candidate.fieldNames : List String :=
  ["market_id", "position_id", "owner", "side", "unrealized_pnl", "leverage", "score",
    "updated_at"]

instance : Codec Candidate where
  encode x := record Candidate.fieldNames [.of x.market, .of x.position, .of x.owner, .of x.side,
    .of x.unrealizedPnl, .of x.leverage, .of x.score, .of x.updatedAt]
  decode j := do
    let [market, position, owner, side, unrealizedPnl, leverage, score,
      updatedAt] ← fieldsOf? Candidate.fieldNames j | none
    return {
      market := ← field market, position := ← field position, owner := ← field owner,
      side := ← field side, unrealizedPnl := ← field unrealizedPnl, leverage := ← field leverage,
      score := ← field score, updatedAt := ← field updatedAt }

/-- The names of the fields of an execution. -/
def Execution.fieldNames : List String :=
  ["id", "market_id", "liquidated_position", "liquidated_side", "closed_positions",
    "total_size_closed", "execution_price", "timestamp"]

instance : Codec Execution where
  encode x := record Execution.fieldNames [.of x.id, .of x.market, .of x.liquidatedPosition,
    .of x.liquidatedSide, .of x.closedPositions, .of x.totalSizeClosed, .of x.price,
    .of x.timestamp]
  decode j := do
    let [id, market, liquidatedPosition, liquidatedSide, closedPositions, totalSizeClosed, price,
      timestamp] ← fieldsOf? Execution.fieldNames j | none
    return {
      id := ← field id, market := ← field market, liquidatedPosition := ← field liquidatedPosition,
      liquidatedSide := ← field liquidatedSide, closedPositions := ← field closedPositions,
      totalSizeClosed := ← field totalSizeClosed, price := ← field price,
      timestamp := ← field timestamp }

end Clearing

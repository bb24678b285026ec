import Clearing.Event.Journal
import Clearing.Format.Deleverage
import Clearing.Format.Margin

/-!
How events are written.

Every kind of event is a record of its own, and an event names the kind that it is of.
-/

namespace Clearing

open Codec

/-- The names of the reasons for closing. -/
def CloseReason.names : List (String × CloseReason) :=
  [("UserClose", .userClose), ("Liquidation", .liquidation), ("AutoDeleverage", .autoDeleverage)]

instance : Codec CloseReason := choice CloseReason.names

/-- The names of the fields of the event of an opened position. -/
def PositionOpened.fieldNames : List String :=
  ["position_id", "market_id", "owner", "side", "size", "collateral", "entry_price", "leverage",
    "liquidation_price"]

instance : Codec PositionOpened where
  encode x := record PositionOpened.fieldNames [.of x.position, .of x.market, .of x.owner,
    .of x.side, .of x.size, .of x.collateral, .of x.entryPrice, .of x.leverage,
    .of x.liquidationPrice]
  decode j := do
    let [position, market, owner, side, size, collateral, entryPrice, leverage,
      liquidationPrice] ← fieldsOf? PositionOpened.fieldNames j | none
    return {
      position := ← field position, market := ← field market, owner := ← field owner,
      side := ← field side, size := ← field size, collateral := ← field collateral,
      entryPrice := ← field entryPrice, leverage := ← field leverage,
      liquidationPrice := ← field liquidationPrice }

/-- The names of the fields of the event of a modified position. -/
def PositionModified.fieldNames : List String :=
  ["position_id", "market_id", "owner", "old_size", "new_size", "old_collateral", "new_collateral",
    "realized_pnl", "liquidation_price"]

instance : Codec PositionModified where
  encode x := record PositionModified.fieldNames [.of x.position, .of x.market, .of x.owner,
    .of x.oldSize, .of x.newSize, .of x.oldCollateral, .of x.newCollateral, .of x.realizedPnl,
    .of x.liquidationPrice]
  decode j := do
    let [position, market, owner, oldSize, newSize, oldCollateral, newCollateral, realizedPnl,
      liquidationPrice] ← fieldsOf? PositionModified.fieldNames j | none
    return {
      position := ← field position, market := ← field market, owner := ← field owner,
      oldSize := ← field oldSize, newSize := ← field newSize,
      oldCollateral := ← field oldCollateral, newCollateral := ← field newCollateral,
      realizedPnl := ← field realizedPnl, liquidationPrice := ← field liquidationPrice }

/-- The names of the fields of the event of a closed position. -/
def PositionClosed.fieldNames : List String :=
  ["position_id", "market_id", "owner", "side", "size", "exit_price", "realized_pnl", "reason"]

instance : Codec PositionClosed where
  encode x := record PositionClosed.fieldNames [.of x.position, .of x.market, .of x.owner,
    .of x.side, .of x.size, .of x.exitPrice, .of x.realizedPnl, .of x.reason]
  decode j := do
    let [position, market, owner, side, size, exitPrice, realizedPnl,
      reason] ← fieldsOf? PositionClosed.fieldNames j | none
    return {
      position := ← field position, market := ← field market, owner := ← field owner,
      side := ← field side, size := ← field size, exitPrice := ← field exitPrice,
      realizedPnl := ← field realizedPnl, reason := ← field reason }

/-- The names of the fields of the event of a liquidated position. -/
def PositionLiquidated.fieldNames : List String :=
  ["position_id", "market_id", "owner", "size", "price", "realized_pnl"]

instance : Codec PositionLiquidated where
  encode x := record PositionLiquidated.fieldNames [.of x.position, .of x.market, .of x.owner,
    .of x.size, .of x.price, .of x.realizedPnl]
  decode j := do
    let [position, market, owner, size, price,
      realizedPnl] ← fieldsOf? PositionLiquidated.fieldNames j | none
    return {
      position := ← field position, market := ← field market, owner := ← field owner,
      size := ← field size, price := ← field price, realizedPnl := ← field realizedPnl }

/-- The names of the fields of the event of an execution. -/
def DeleverageTriggered.fieldNames : List String :=
  ["execution_id", "market_id", "liquidated_position", "liquidated_side", "size_to_close",
    "total_closed", "execution_price", "fully_covered"]

instance : Codec DeleverageTriggered where
  encode x := record DeleverageTriggered.fieldNames [.of x.execution, .of x.market,
    .of x.liquidatedPosition, .of x.liquidatedSide, .of x.sizeToClose, .of x.totalClosed,
    .of x.price, .of x.fullyCovered]
  decode j := do
    let [execution, market, liquidatedPosition, liquidatedSide, sizeToClose, totalClosed, price,
      fullyCovered] ← fieldsOf? DeleverageTriggered.fieldNames j | none
    return {
      execution := ← field execution, market := ← field market,
      liquidatedPosition := ← field liquidatedPosition, liquidatedSide := ← field liquidatedSide,
      sizeToClose := ← field sizeToClose, totalClosed := ← field totalClosed,
      price := ← field price, fullyCovered := ← field fullyCovered }

/-- The names of the fields of the event of a deleveraged position. -/
def PositionDeleveraged.fieldNames : List String :=
  ["execution_id", "position_id", "owner", "rank", "size_closed", "realized_pnl"]

instance : Codec PositionDeleveraged where
  encode x := record PositionDeleveraged.fieldNames [.of x.execution, .of x.position, .of x.owner,
    .of x.rank, .of x.sizeClosed, .of x.realizedPnl]
  decode j := do
    let [execution, position, owner, rank, sizeClosed,
      realizedPnl] ← fieldsOf? PositionDeleveraged.fieldNames j | none
    return {
      execution := ← field execution, position := ← field position, owner := ← field owner,
      rank := ← field rank, sizeClosed := ← field sizeClosed, realizedPnl := ← field realizedPnl }

/-- The names of the fields of the event of a queue that changed. -/
def QueueLengthChanged.fieldNames : List String :=
  ["market_id", "side", "old_length", "new_length"]

instance : Codec QueueLengthChanged where
  encode x := record QueueLengthChanged.fieldNames [.of x.market, .of x.side, .of x.oldLength,
    .of x.newLength]
  decode j := do
    let [market, side, oldLength, newLength] ← fieldsOf? QueueLengthChanged.fieldNames j | none
    return {
      market := ← field market, side := ← field side, oldLength := ← field oldLength,
      newLength := ← field newLength }

/-- The names of the fields of the event of a settlement. -/
def FundingApplied.fieldNames : List String :=
  ["market_id", "rate_bps", "periods", "total_paid", "positions"]

instance : Codec FundingApplied where
  encode x := record FundingApplied.fieldNames [.of x.market, .of x.rate, .of x.periods,
    .of x.totalPaid, .of x.positions]
  decode j := do
    let [market, rate, periods, totalPaid,
      positions] ← fieldsOf? FundingApplied.fieldNames j | none
    return {
      market := ← field market, rate := ← field rate, periods := ← field periods,
      totalPaid := ← field totalPaid, positions := ← field positions }

/-- The names of the fields of the event of a payment. -/
def FundingPaid.fieldNames : List String :=
  ["market_id", "position_id", "owner", "amount"]

instance : Codec FundingPaid where
  encode x := record FundingPaid.fieldNames [.of x.market, .of x.position, .of x.owner,
    .of x.amount]
  decode j := do
    let [market, position, owner, amount] ← fieldsOf? FundingPaid.fieldNames j | none
    return {
      market := ← field market, position := ← field position, owner := ← field owner,
      amount := ← field amount }

/-- The names of the fields of the event of a new margin tier. -/
def MarginUpdated.fieldNames : List String :=
  ["market_id", "previous", "config"]

instance : Codec MarginUpdated where
  encode x := record MarginUpdated.fieldNames [.of x.market, .of x.previous, .of x.tier]
  decode j := do
    let [market, previous, tier] ← fieldsOf? MarginUpdated.fieldNames j | none
    return { market := ← field market, previous := ← field previous, tier := ← field tier }

/-- The names of the fields of the event of new deleveraging terms. -/
def DeleverageUpdated.fieldNames : List String :=
  ["market_id", "config"]

instance : Codec DeleverageUpdated where
  encode x := record DeleverageUpdated.fieldNames [.of x.market, .of x.terms]
  decode j := do
    let [market, terms] ← fieldsOf? DeleverageUpdated.fieldNames j | none
    return { market := ← field market, terms := ← field terms }

/-- A payload is written under the name of its kind. -/
instance : Codec Payload where
  encode
    | .positionOpened e => case_ "PositionOpened" e
    | .positionModified e => case_ "PositionModified" e
    | .positionClosed e => case_ "PositionClosed" e
    | .positionLiquidated e => case_ "PositionLiquidated" e
    | .deleverageTriggered e => case_ "AdlTriggered" e
    | .positionDeleveraged e => case_ "PositionDeleveraged" e
    | .queueLengthChanged e => case_ "AdlQueueLengthChanged" e
    | .fundingApplied e => case_ "FundingApplied" e
    | .fundingPaid e => case_ "FundingPaid" e
    | .marginUpdated e => case_ "RiskConfigUpdated" e
    | .deleverageUpdated e => case_ "AdlConfigUpdated" e
  decode j := do
    let (name, held) ← caseOf? j
    match name with
    | "PositionOpened" => return .positionOpened (← decode held)
    | "PositionModified" => return .positionModified (← decode held)
    | "PositionClosed" => return .positionClosed (← decode held)
    | "PositionLiquidated" => return .positionLiquidated (← decode held)
    | "AdlTriggered" => return .deleverageTriggered (← decode held)
    | "PositionDeleveraged" => return .positionDeleveraged (← decode held)
    | "AdlQueueLengthChanged" => return .queueLengthChanged (← decode held)
    | "FundingApplied" => return .fundingApplied (← decode held)
    | "FundingPaid" => return .fundingPaid (← decode held)
    | "RiskConfigUpdated" => return .marginUpdated (← decode held)
    | "AdlConfigUpdated" => return .deleverageUpdated (← decode held)
    | _ => none

/-- The names of the fields of an event. -/
def Event.fieldNames : List String :=
  ["id", "timestamp", "payload"]

instance : Codec Event where
  encode x := record Event.fieldNames [.of x.id, .of x.timestamp, .of x.payload]
  decode j := do
    let [id, timestamp, payload] ← fieldsOf? Event.fieldNames j | none
    return { id := ← field id, timestamp := ← field timestamp, payload := ← field payload }

end Clearing

import Clearing.Format.Units
import Clearing.Funding.Book

/-!
How funding terms, states and settlements are written.
-/

namespace Clearing

open Codec

/-- The names of the fields of funding terms. -/
def FundingTerms.fieldNames : List String :=
  ["enabled", "period_secs", "max_rate_bps"]

instance : Codec FundingTerms where
  encode x := record FundingTerms.fieldNames [.of x.enabled, .of x.period, .of x.maxRate]
  decode j := do
    let [enabled, period, maxRate] ← fieldsOf? FundingTerms.fieldNames j | none
    return { enabled := ← field enabled, period := ← field period, maxRate := ← field maxRate }

/-- The names of the fields of a funding state. -/
def FundingState.fieldNames : List String :=
  ["last_settlement", "last_rate_bps", "cumulative_index", "settlements", "long_open_interest",
    "short_open_interest"]

instance : Codec FundingState where
  encode x := record FundingState.fieldNames [.of x.lastSettlement, .of x.lastRate,
    .of x.cumulativeIndex, .of x.settlements, .of x.longOpenInterest, .of x.shortOpenInterest]
  decode j := do
    let [lastSettlement, lastRate, cumulativeIndex, settlements, longOpenInterest,
      shortOpenInterest] ← fieldsOf? FundingState.fieldNames j | none
    return {
      lastSettlement := ← field lastSettlement, lastRate := ← field lastRate,
      cumulativeIndex := ← field cumulativeIndex, settlements := ← field settlements,
      longOpenInterest := ← field longOpenInterest,
      shortOpenInterest := ← field shortOpenInterest }

/-- The names of the fields of a payment. -/
def FundingPayment.fieldNames : List String :=
  ["position_id", "owner", "side", "amount"]

instance : Codec FundingPayment where
  encode x := record FundingPayment.fieldNames [.of x.position, .of x.owner, .of x.side,
    .of x.amount]
  decode j := do
    let [position, owner, side, amount] ← fieldsOf? FundingPayment.fieldNames j | none
    return {
      position := ← field position, owner := ← field owner, side := ← field side,
      amount := ← field amount }

/-- The names of the fields of a settlement. -/
def FundingSettlement.fieldNames : List String :=
  ["market_id", "rate_bps", "periods", "payments", "total_paid", "timestamp"]

instance : Codec FundingSettlement where
  encode x := record FundingSettlement.fieldNames [.of x.market, .of x.rate, .of x.periods,
    .of x.payments, .of x.totalPaid, .of x.timestamp]
  decode j := do
    let [market, rate, periods, payments, totalPaid,
      timestamp] ← fieldsOf? FundingSettlement.fieldNames j | none
    return {
      market := ← field market, rate := ← field rate, periods := ← field periods,
      payments := ← field payments, totalPaid := ← field totalPaid,
      timestamp := ← field timestamp }

/-- The names of the fields of a funding book. -/
def FundingBook.fieldNames : List String :=
  ["configs", "states"]

instance : Codec FundingBook where
  encode x := record FundingBook.fieldNames [.of x.terms, .of x.states]
  decode j := do
    let [terms, states] ← fieldsOf? FundingBook.fieldNames j | none
    return { terms := ← field terms, states := ← field states }

end Clearing

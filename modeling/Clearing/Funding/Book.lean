import Clearing.Funding.Plan
import Clearing.Funding.Terms
import Clearing.Ledger.Mark

/-!
The funding of all markets, settled period by period.

A settlement charges the whole periods since the one before it, at the rate that the present
open interest gives, and moves the clock of the market to the present.  Where funding is
disabled it only moves the clock.
-/

namespace Clearing

/-- What a settlement did. -/
structure FundingSettlement where
  market : MarketId
  rate : Bps
  periods : UInt64
  payments : List FundingPayment
  totalPaid : Amount
  timestamp : Instant
deriving DecidableEq

namespace FundingSettlement

/-- A settlement that charged nothing. -/
def idle (market : MarketId) (now : Instant) : FundingSettlement :=
  ⟨market, .zero, 0, [], .zero, now⟩

/-- The sum of all payments, unchecked. -/
def netTransfer {ε : Type} (s : FundingSettlement) : Except (Failure ε) Decimal :=
  Decimal.sumOrStop (s.payments.map (·.amount))

end FundingSettlement

/-- The terms and the state of each market. -/
structure FundingBook where
  terms : Table MarketId FundingTerms
  states : Table MarketId FundingState
deriving DecidableEq

namespace FundingBook

/-- No market is configured. -/
def empty : FundingBook := ⟨.empty, .empty⟩

/-- The terms of a market. -/
def terms? (b : FundingBook) (market : MarketId) : Option FundingTerms :=
  b.terms.get? market

/-- The state of a market. -/
def state? (b : FundingBook) (market : MarketId) : Option FundingState :=
  b.states.get? market

/-- The terms of a market, which must be configured. -/
def get (b : FundingBook) (market : MarketId) : Except FundingError FundingTerms :=
  match b.terms? market with
  | some terms => .ok terms
  | none => .error (.notConfigured market)

/-- Installs terms and returns the earlier ones; the clock of a market starts with its first. -/
def configure (b : FundingBook) (market : MarketId) (terms : FundingTerms) (now : Instant) :
    Except FundingError (Option FundingTerms × FundingBook) := do
  terms.validate
  let states :=
    if b.states.contains market then b.states else b.states.insert market (.start now)
  return (b.terms? market, ⟨b.terms.insert market terms, states⟩)

/-- Writes a state with the clock moved to the present and the open interest of the present. -/
def advance (b : FundingBook) (market : MarketId) (state : FundingState) (oi : OpenInterest)
    (now : Instant) : FundingBook :=
  { b with
    states := b.states.insert market
      { state with
        lastSettlement := now, longOpenInterest := oi.long, shortOpenInterest := oi.short } }

/-- The state after charging `periods` at a rate. -/
def charge (state : FundingState) (rate : Bps) (periods : UInt64) :
    Except ArithmeticError FundingState := do
  let step ← rate.toDecimal.mul (Decimal.ofUInt64 periods) "funding index"
  let index ← state.cumulativeIndex.add step "funding index"
  return { state with
    cumulativeIndex := index, lastRate := rate, settlements := state.settlements + 1 }

/-- Settles a market. -/
def settle (b : FundingBook) (market : MarketId) (l : Ledger) (now : Instant) :
    Except (Failure FundingError) (FundingSettlement × FundingBook × Ledger) := do
  let terms ← refusing id (b.get market)
  let state := (b.state? market).getD (.start now)
  let oi := l.openInterest market
  if terms.enabled = false ∨ terms.period = 0 then
    return (.idle market now, b.advance market state oi now, l)
  let elapsed := state.lastSettlement.secondsUntil now
  let periods := elapsed / terms.period
  if periods = 0 then refuse (.tooSoon market (terms.period - elapsed))
  let rate ← inTermsOf .arithmetic (fundingRate oi terms.maxRate)
  let plan ← refusing .arithmetic (FundingPlan.make l market rate periods)
  let next ← refusing .arithmetic (charge state rate periods)
  let l ← refusing .booking
    (l.applyFunding (plan.payments.map fun p => (p.position, p.amount)) next.cumulativeIndex now)
  return (⟨market, rate, periods, plan.payments, plan.totalPaid, now⟩,
    b.advance market next oi now, l)

/-- The rate that a settlement would charge. -/
def previewRate (b : FundingBook) (market : MarketId) (l : Ledger) :
    Except (Failure FundingError) Bps := do
  let terms ← refusing id (b.get market)
  if terms.enabled = false then return .zero
  inTermsOf .arithmetic (fundingRate (l.openInterest market) terms.maxRate)

/-- The seconds until a period is complete. -/
def secondsUntilNext (b : FundingBook) (market : MarketId) (now : Instant) :
    Except FundingError UInt64 := do
  let terms ← b.get market
  let last := ((b.state? market).map (·.lastSettlement)).getD now
  let elapsed := last.secondsUntil now
  return if elapsed ≤ terms.period then terms.period - elapsed else 0

end FundingBook

end Clearing

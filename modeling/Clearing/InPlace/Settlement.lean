import Clearing.InPlace.Ledger
import Clearing.InPlace.Terms

/-!
Settling funding, in place.

A settlement works on the book and on the ledger it books the payments in.  The ledger comes
first; the book is written only after every payment is.
-/

namespace Clearing

/-- The funding of the markets and the ledger it is booked in. -/
structure FundedLedger where
  book : FundingBook
  ledger : Ledger

namespace FundedLedger

/-- The ledger alone. -/
def ledgerPart : Part FundedLedger Ledger where
  get := (·.ledger)
  set s l := { s with ledger := l }
  get_set _ _ := rfl
  set_get _ := rfl

end FundedLedger

namespace FundingBook

namespace InPlace

/-- Writes the state of a market, with the clock moved to the present. -/
def advance (market : MarketId) (state : FundingState) (oi : OpenInterest) (now : Instant) :
    Edit FundedLedger FundingError Unit :=
  .write fun s => { s with book := s.book.advance market state oi now }

/-- Settles a market. -/
def settle (market : MarketId) (now : Instant) :
    Edit FundedLedger FundingError FundingSettlement := do
  let terms ← .check fun s => refusing id (s.book.get market)
  let state ← .read fun s => (s.book.state? market).getD (.start now)
  let oi ← .read (·.ledger.openInterest market)
  if terms.enabled = false ∨ terms.period = 0 then
    advance market state oi now
    return .idle market now
  let elapsed := state.lastSettlement.secondsUntil now
  let periods := elapsed / terms.period
  if periods = 0 then .attempt (refuse (.tooSoon market (terms.period - elapsed)))
  let rate ← .attempt (inTermsOf .arithmetic (fundingRate oi terms.maxRate))
  let plan ← .check fun s => refusing .arithmetic (FundingPlan.make s.ledger market rate periods)
  let next ← .attempt (refusing .arithmetic (charge state rate periods))
  let payments := plan.payments.map fun p => (p.position, p.amount)
  .within FundedLedger.ledgerPart <| .reworded .booking <|
    Ledger.InPlace.applyFunding payments next.cumulativeIndex now
  advance market next oi now
  return ⟨market, rate, periods, plan.payments, plan.totalPaid, now⟩

end InPlace

end FundingBook

end Clearing

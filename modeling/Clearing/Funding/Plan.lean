import Clearing.Funding.Rate
import Clearing.Ledger.Basic

/-!
Who pays and who receives in a settlement.

Every position on the paying side owes its funding.  The pot is split among the receivers by
size, each share rounded on its own; the last receiver gets what is left, for the batch to net to
zero.  Where open interest shows nothing on the receiving side, nobody pays.
-/

namespace Clearing

/-- A payment: negative where the position pays, positive where it receives. -/
structure FundingPayment where
  position : PositionId
  owner : AccountId
  side : Side
  amount : Amount
deriving DecidableEq

/-- The payments of one side with their running total. -/
structure FundingTally where
  payments : List FundingPayment
  total : Decimal
deriving DecidableEq

/-- The payments of a settlement, and the pot that the payers filled. -/
structure FundingPlan where
  payments : List FundingPayment
  totalPaid : Amount
deriving DecidableEq

namespace FundingPlan

/-- Nobody pays. -/
def nothing : FundingPlan := ⟨[], .zero⟩

/-- The side that pays at a rate. -/
def payingSide (rate : Bps) : Side :=
  if 0 < rate.toInt then .long else .short

/-- Collects what a position owes. -/
def collect (rate : Bps) (periods : UInt64) (t : FundingTally) (p : Position) :
    Except ArithmeticError FundingTally := do
  let owed ← fundingOwed p.size rate periods
  let total ← t.total.add owed "funding pot"
  return ⟨t.payments ++ [⟨p.id, p.owner, p.side, -owed⟩], total⟩

/-- Collects from all payers. -/
def collectAll (rate : Bps) (periods : UInt64) (payers : List Position) :
    Except ArithmeticError FundingTally :=
  payers.foldlM (collect rate periods) ⟨[], .zero⟩

/-- Splits a pot among receivers by their share of the open interest, after `paidOut` of it went
to those before them; the last of them gets the rest. -/
def distribute (pot openInterest : Decimal) :
    (paidOut : Decimal) → List Position → Except ArithmeticError (List FundingPayment)
  | _, [] => .ok []
  | paidOut, p :: rest => do
    let share ←
      if rest.isEmpty then pot.sub paidOut "funding share"
      else do
        let weighted ← pot.mul p.size "funding share"
        weighted.div openInterest "funding share"
    let paidOut ← paidOut.add share "funding share"
    let others ← distribute pot openInterest paidOut rest
    return ⟨p.id, p.owner, p.side, share⟩ :: others

/-- The payments in a market for a number of periods at a rate. -/
def make (l : Ledger) (market : MarketId) (rate : Bps) (periods : UInt64) :
    Except ArithmeticError FundingPlan := do
  if rate = .zero ∨ periods = 0 then return nothing
  let payer := payingSide rate
  let receiver := payer.opposite
  let receiving := (l.openInterest market).onSide receiver
  if receiving.isZero then return nothing
  let positions := l.positionsIn market
  let payers := positions.filter (·.side = payer)
  let receivers := positions.filter (·.side = receiver)
  let collected ← collectAll rate periods payers
  let received ← distribute collected.total receiving .zero receivers
  return ⟨collected.payments ++ received, collected.total⟩

end FundingPlan

end Clearing

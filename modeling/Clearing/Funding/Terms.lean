import Clearing.Identifier
import Clearing.Instant
import Clearing.Ledger.Basic

/-!
On which terms funding is settled in a market, and where its settlements stand.
-/

namespace Clearing

/-- Why funding is refused. -/
inductive FundingError where
  | notConfigured (market : MarketId)
  | tooSoon (market : MarketId) (remaining : UInt64)
  | invalidTerms (reason : String)
  | booking (cause : LedgerError)
  | arithmetic (cause : ArithmeticError)
deriving DecidableEq

/-- The error in words. -/
def FundingError.message : FundingError → String
  | notConfigured market => s!"Funding not configured for market {market.text}"
  | tooSoon market remaining =>
    s!"Funding too soon for market {market.text}: {remaining}s until next period"
  | invalidTerms reason => s!"Invalid funding config: {reason}"
  | booking cause => s!"Funding ledger update failed: {cause.message}"
  | arithmetic cause => cause.message

/-- The terms of funding in a market. -/
structure FundingTerms where
  enabled : Bool
  /-- The seconds of one period. -/
  period : UInt64
  /-- The most that one period can cost. -/
  maxRate : Bps
deriving DecidableEq

namespace FundingTerms

/-- What can be wrong with the terms. -/
inductive Defect where
  | maxRateOutOfRange (maxRate : Bps)
deriving DecidableEq

/-- The defect in words. -/
def Defect.reason : Defect → String
  | maxRateOutOfRange maxRate => s!"max funding rate {maxRate.text} must be in [0, 10000]"

/-- The first thing wrong with the terms, if anything is. -/
def defect? (t : FundingTerms) : Option Defect :=
  if t.maxRate.toInt < 0 ∨ 10000 < t.maxRate.toInt then some (.maxRateOutOfRange t.maxRate)
  else none

/-- Refuses terms that have a defect. -/
def validate (t : FundingTerms) : Except FundingError Unit :=
  match t.defect? with
  | some defect => .error (.invalidTerms defect.reason)
  | none => .ok ()

/-- Three percent at most, every eight hours. -/
def standard : FundingTerms := ⟨true, 28800, ⟨300⟩⟩

end FundingTerms

/-- Where the settlements of a market stand. -/
structure FundingState where
  lastSettlement : Instant
  lastRate : Bps
  /-- The sum over all settlements of rate times periods. -/
  cumulativeIndex : Decimal
  settlements : Nat
  /-- The open interest that the last settlement saw. -/
  longOpenInterest : Decimal
  shortOpenInterest : Decimal
deriving DecidableEq

namespace FundingState

/-- The state of a market whose clock starts now. -/
def start (now : Instant) : FundingState :=
  ⟨now, .zero, .zero, 0, .zero, .zero⟩

end FundingState

end Clearing

import Clearing.Deleverage.Terms
import Clearing.Funding.Terms
import Clearing.Roles
import Clearing.Safeguards

/-!
Why the clearing house refuses a call, and what a caller can do about it.

Every error belongs to one kind.  Timing and capacity clear up on their own, so the same call can
be tried again; all other kinds need a different call.
-/

namespace Clearing

/-- What a caller branches on. -/
inductive ErrorKind where
  | authorization
  | notFound
  | validation
  | timing
  | stateGate
  | capacity
  | arithmetic
deriving DecidableEq

/-- Whether the same call can succeed later. -/
def ErrorKind.isRetryable : ErrorKind → Bool
  | timing | capacity => true
  | _ => false

/-- Why a call is refused. -/
inductive HouseError where
  | unauthorized (role : Role) (caller : AccountId)
  | paused (activity : Activity)
  | tripped (market : MarketId)
  | noPrice (market : MarketId)
  | ledger (cause : LedgerError)
  | deleverage (cause : DeleverageError)
  | funding (cause : FundingError)
  | margin (cause : MarginError)
  | arithmetic (cause : ArithmeticError)
deriving DecidableEq

/-- The error in words. -/
def HouseError.message : HouseError → String
  | unauthorized role caller => s!"Caller {caller.text} lacks role {role.text}"
  | paused activity => s!"Module {activity.text} is paused"
  | tripped market => s!"Circuit breaker tripped for market {market.text}"
  | noPrice market => s!"No price available for market {market.text}"
  | ledger cause => s!"Position error: {cause.message}"
  | deleverage cause => s!"ADL error: {cause.message}"
  | funding cause => s!"Funding error: {cause.message}"
  | margin cause => s!"Risk config error: {cause.message}"
  | arithmetic cause => cause.message

/-- The kind of a ledger's error. -/
def LedgerError.kind : LedgerError → ErrorKind
  | notFound _ => .notFound
  | invalidSize _ | insufficientCollateral _ | leverageExceedsMax _ _
  | insufficientInitialMargin _ _ => .validation
  | marketNotConfigured _ => .stateGate
  | arithmetic _ => .arithmetic

/-- The kind of a deleveraging error. -/
def DeleverageError.kind : DeleverageError → ErrorKind
  | notEnabled _ | notConfigured _ => .stateGate
  | noCandidates _ _ => .capacity
  | gracePeriod _ _ => .timing
  | invalidSize _ | invalidTerms _ => .validation
  | forcedClose cause => cause.kind

/-- The kind of a funding error. -/
def FundingError.kind : FundingError → ErrorKind
  | notConfigured _ => .stateGate
  | tooSoon _ _ => .timing
  | invalidTerms _ => .validation
  | booking cause => cause.kind
  | arithmetic _ => .arithmetic

/-- The kind of a margin error. -/
def MarginError.kind : MarginError → ErrorKind
  | invalid _ => .validation
  | notConfigured _ => .stateGate

/-- The kind of an error. -/
def HouseError.kind : HouseError → ErrorKind
  | unauthorized _ _ => .authorization
  | paused _ | tripped _ | noPrice _ => .stateGate
  | ledger cause => cause.kind
  | deleverage cause => cause.kind
  | funding cause => cause.kind
  | margin cause => cause.kind
  | arithmetic _ => .arithmetic

end Clearing

import Clearing.Identifier
import Clearing.Instant
import Clearing.Ledger.Basic

/-!
On which terms positions in a market may be deleveraged.
-/

namespace Clearing

/-- Why deleveraging is refused. -/
inductive DeleverageError where
  | notEnabled (market : MarketId)
  | noCandidates (market : MarketId) (side : Side)
  | gracePeriod (market : MarketId) (remaining : UInt64)
  | invalidSize (size : Decimal)
  | invalidTerms (reason : String)
  | notConfigured (market : MarketId)
  | forcedClose (cause : LedgerError)
deriving DecidableEq

/-- The error in words. -/
def DeleverageError.message : DeleverageError → String
  | notEnabled market => s!"ADL not enabled for market {market.text}"
  | noCandidates market side =>
    s!"No ADL candidates on the {side.text} side of market {market.text}"
  | gracePeriod market remaining =>
    s!"ADL grace period active for market {market.text}: {remaining}s remaining"
  | invalidSize size => s!"Invalid ADL size {size.text}"
  | invalidTerms reason => s!"Invalid ADL config: {reason}"
  | notConfigured market => s!"ADL not configured for market {market.text}"
  | forcedClose cause => s!"Force close failed: {cause.message}"

/-- The terms of deleveraging in a market. -/
structure DeleverageTerms where
  /-- Deleveraging is due when the insurance fund is below this share of open interest. -/
  insuranceThreshold : Bps
  maxPositions : UInt32
  /-- Seconds that must pass between two executions. -/
  gracePeriod : UInt64
  active : Bool
deriving DecidableEq

namespace DeleverageTerms

/-- What can be wrong with the terms. -/
inductive Defect where
  | thresholdOutOfRange (threshold : Bps)
  | noPositions
deriving DecidableEq

/-- The defect in words. -/
def Defect.reason : Defect → String
  | thresholdOutOfRange threshold =>
    s!"insurance fund threshold {threshold.text} must be in [0, 10000]"
  | noPositions => "max positions per event must be at least 1"

/-- The first thing wrong with the terms, if anything is. -/
def defect? (t : DeleverageTerms) : Option Defect :=
  if t.insuranceThreshold.toInt < 0 ∨ 10000 < t.insuranceThreshold.toInt then
    some (.thresholdOutOfRange t.insuranceThreshold)
  else if t.maxPositions = 0 then some .noPositions
  else none

/-- Refuses terms that have a defect. -/
def validate (t : DeleverageTerms) : Except DeleverageError Unit :=
  match t.defect? with
  | some defect => .error (.invalidTerms defect.reason)
  | none => .ok ()

/-- A threshold of one percent, at most fifty positions at a time, no grace period. -/
def standard : DeleverageTerms := ⟨⟨100⟩, 50, 0, true⟩

/-- Whether an insurance fund is below its threshold for an open interest of this value. -/
def isInsuranceLow (t : DeleverageTerms) (fund : Amount) (openInterestValue : Decimal) :
    Except ArithmeticError Bool := do
  let scaled ← openInterestValue.mul t.insuranceThreshold.toDecimal "insurance threshold"
  let required ← scaled.div Bps.whole "insurance threshold"
  return decide (fund < required)

end DeleverageTerms

end Clearing

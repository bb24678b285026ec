import Clearing.Identifier
import Clearing.Margin.Tier

/-!
The margin tiers of all markets.

Only tiers without a defect enter a schedule.  A market that is configured but not active keeps
its tier: positions in it can be reduced and closed, and nothing can be added to them.
-/

namespace Clearing

/-- Why a schedule refuses. -/
inductive MarginError where
  | invalid (reason : String)
  | notConfigured (market : MarketId)
deriving DecidableEq

/-- The error in words. -/
def MarginError.message : MarginError → String
  | invalid reason => s!"Invalid risk parameters: {reason}"
  | notConfigured market => s!"Market {market.text} is not configured or inactive"

/-- Refuses a tier that has a defect. -/
def MarginTier.validate (t : MarginTier) : Except MarginError Unit :=
  match t.defect? with
  | some defect => .error (.invalid defect.reason)
  | none => .ok ()

/-- The tier of each configured market. -/
structure MarginSchedule where
  tiers : Table MarketId MarginTier
deriving DecidableEq

namespace MarginSchedule

/-- No market is configured. -/
def empty : MarginSchedule := ⟨.empty⟩

/-- The tier of a market, active or not. -/
def tier? (s : MarginSchedule) (market : MarketId) : Option MarginTier :=
  s.tiers.get? market

/-- The tier of a market that is active. -/
def activeTier? (s : MarginSchedule) (market : MarketId) : Option MarginTier :=
  (s.tier? market).filter (·.active)

/-- The tier of a market that must be active. -/
def activeTier (s : MarginSchedule) (market : MarketId) : Except MarginError MarginTier :=
  match s.activeTier? market with
  | some tier => .ok tier
  | none => .error (.notConfigured market)

/-- Installs a tier in place of any earlier one, and returns that one. -/
def install (s : MarginSchedule) (market : MarketId) (tier : MarginTier) :
    Except MarginError (Option MarginTier × MarginSchedule) := do
  tier.validate
  return (s.tier? market, ⟨s.tiers.insert market tier⟩)

/-- Switches a configured market on or off. -/
def setActive (s : MarginSchedule) (market : MarketId) (active : Bool) :
    Except MarginError MarginSchedule :=
  match s.tier? market with
  | some tier => .ok ⟨s.tiers.insert market { tier with active := active }⟩
  | none => .error (.notConfigured market)

end MarginSchedule

end Clearing

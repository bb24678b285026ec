import Clearing.Decimal.Checked
import Clearing.Measure

/-!
What a market asks of the collateral behind its positions.

A tier has two rates, both shares of the notional value: below the maintenance margin a position
may be liquidated, and the stricter initial margin must be there to take on risk.
-/

namespace Clearing

/-- The margin rates of a market, its leverage cap, and whether it takes on new risk. -/
structure MarginTier where
  maintenance : Bps
  initial : Bps
  maxLeverage : Leverage
  active : Bool
deriving DecidableEq

namespace MarginTier

/-- What can be wrong with the rates of a tier. -/
inductive Defect where
  | maintenanceOutOfRange (maintenance : Bps)
  | initialNotAbove (initial maintenance : Bps)
  | initialAboveWhole (initial : Bps)
deriving DecidableEq

/-- The defect in words. -/
def Defect.reason : Defect → String
  | maintenanceOutOfRange mm => s!"maintenance margin {mm.text} must be in [0, 10000)"
  | initialNotAbove im mm =>
    s!"initial margin {im.text} must exceed maintenance margin {mm.text}"
  | initialAboveWhole im => s!"initial margin {im.text} above 100%"

/-- The first thing wrong with the rates, if anything is. -/
def defect? (t : MarginTier) : Option Defect :=
  if t.maintenance.toInt < 0 ∨ 10000 ≤ t.maintenance.toInt then
    some (.maintenanceOutOfRange t.maintenance)
  else if t.initial.toInt ≤ t.maintenance.toInt then
    some (.initialNotAbove t.initial t.maintenance)
  else if 10000 < t.initial.toInt then some (.initialAboveWhole t.initial)
  else none

/-- Half the initial margin for maintenance, at most twenty times leverage. -/
def standard : MarginTier := ⟨⟨500⟩, ⟨1000⟩, ⟨20⟩, true⟩

/-- The share of a notional value that a rate stands for. -/
def marginFor (notional : Decimal) (rate : Bps) : Except ArithmeticError Decimal := do
  let scaled ← notional.mul rate.toDecimal "margin requirement"
  scaled.div Bps.whole "margin requirement"

/-- The collateral below which a position of this notional value may be liquidated. -/
def maintenanceMargin (t : MarginTier) (notional : Decimal) : Except ArithmeticError Decimal :=
  marginFor notional t.maintenance

/-- The collateral needed to take on a position of this notional value. -/
def initialMargin (t : MarginTier) (notional : Decimal) : Except ArithmeticError Amount :=
  marginFor notional t.initial

end MarginTier

end Clearing

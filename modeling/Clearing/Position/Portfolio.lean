import Clearing.Position.Basic

/-!
All positions of one owner, rolled up.
-/

namespace Clearing

/-- The totals over the open positions of an owner. -/
structure Portfolio where
  owner : AccountId
  totalCollateral : Amount
  netUnrealizedPnl : Amount
  /-- Collateral and gains over the value at entry prices. -/
  marginRatio : Decimal
  openPositions : Nat
  updatedAt : Instant
deriving DecidableEq

namespace Portfolio

/-- Running totals over a list of positions. -/
structure Totals where
  collateral : Decimal
  pnl : Decimal
  notional : Decimal
  count : Nat
deriving DecidableEq

/-- Adds a position to the totals. -/
def Totals.add (t : Totals) (p : Position) : Except ArithmeticError Totals := do
  let collateral ← t.collateral.add p.collateral "portfolio collateral"
  let pnl ← t.pnl.add p.unrealizedPnl "portfolio pnl"
  let value ← p.notional
  let notional ← t.notional.add value "portfolio notional"
  return ⟨collateral, pnl, notional, t.count + 1⟩

/-- The totals over positions in the order given; sums round, so the order can matter. -/
def totals (positions : List Position) : Except ArithmeticError Totals :=
  positions.foldlM Totals.add ⟨.zero, .zero, .zero, 0⟩

/-- The portfolio of an owner with these positions. -/
def ofPositions (owner : AccountId) (positions : List Position) (now : Instant) :
    Except ArithmeticError Portfolio := do
  let t ← totals positions
  let equity ← t.collateral.add t.pnl "portfolio equity"
  return {
    owner := owner
    totalCollateral := t.collateral
    netUnrealizedPnl := t.pnl
    marginRatio := Clearing.marginRatio equity t.notional
    openPositions := t.count
    updatedAt := now }

end Portfolio

end Clearing

import Clearing.Identifier
import Clearing.Instant
import Clearing.Margin.Tier

/-!
Positions, and what the price does to them.

A long position gains what the price rises by, a short one what it falls by, for each unit of
its size.  Its liquidation price is where that loss has eaten the collateral down to the
maintenance margin.  When the collateral is there already, the liquidation price is a bound that
no price can be on the good side of: zero for a long position, the largest decimal for a short
one.
-/

namespace Clearing

/-- An open position. -/
structure Position where
  id : PositionId
  market : MarketId
  owner : AccountId
  side : Side
  /-- Units of base, above zero while the position is open. -/
  size : Decimal
  collateral : Amount
  entryPrice : Price
  leverage : Leverage
  /-- The funding index of the market when funding last reached the position. -/
  fundingIndex : Decimal
  accumulatedFunding : Amount
  realizedPnl : Amount
  /-- The gain at the price the position was last marked at. -/
  unrealizedPnl : Amount
  liquidationPrice : Decimal
  openedAt : Instant
  updatedAt : Instant
deriving DecidableEq

/-- The gain of a position of this size when the price goes from `entry` to `mark`. -/
def unrealizedPnl (side : Side) (size : Decimal) (entry mark : Price) :
    Except ArithmeticError Amount := do
  let move ←
    match side with
    | .long => mark.sub entry "unrealized pnl"
    | .short => entry.sub mark "unrealized pnl"
  move.mul size "unrealized pnl"

/-- The liquidation price of a position whose collateral does not exceed its maintenance
margin. -/
def Side.exhaustedBound : Side → Decimal
  | .long => Decimal.zero
  | .short => Decimal.greatest

/--
The price at which the collateral is down to the maintenance margin.

What the collateral has above the margin, spread over the size, is how far the price may move; a
distance that cannot be represented is the greatest one.  A long position can lose down to the
smallest price, and a short one up to the largest decimal.
-/
def liquidationPrice (side : Side) (size : Decimal) (entry : Price) (collateral : Amount)
    (tier : MarginTier) : Except (Failure ArithmeticError) Decimal := do
  let notional ← refusing id (size.mul entry "liquidation notional")
  let maintenance ← refusing id (tier.maintenanceMargin notional)
  if collateral ≤ maintenance then return side.exhaustedBound
  else
    let buffer ← refusing id (collateral.sub maintenance "liquidation buffer")
    let distance := (buffer.div? size).getD .greatest
    match side with
    | .long =>
      let price ← entry.subOrStop distance
      return price.max Price.epsilon
    | .short => return (entry.add? distance).getD .greatest

/-- Equity over notional value; without exposure, or where the ratio cannot be represented, the
largest decimal. -/
def marginRatio (equity : Amount) (notional : Decimal) : Decimal :=
  if notional.isZero then .greatest else (equity.div? notional).getD .greatest

/-- The share of a gain that belongs to the part `reduction` of a size. -/
def proportionalPnl (pnl : Amount) (reduction size : Decimal) : Except ArithmeticError Amount := do
  let scaled ← pnl.mul reduction "proportional pnl"
  scaled.div size "proportional pnl"

/-- The entry price after adding to a position: the average of both prices, weighted by size.  An
average that is no longer above zero leaves the entry price as it was. -/
def averagedEntryPrice (size : Decimal) (entry : Price) (added : Decimal) (fill : Price) :
    Except ArithmeticError Price := do
  let held ← size.mul entry "entry averaging"
  let bought ← added.mul fill "entry averaging"
  let value ← held.add bought "entry averaging"
  let total ← size.add added "entry averaging"
  let average ← value.div total "entry averaging"
  return (Price.ofPositive? average).getD entry

namespace Position

/-- The value of the position at its entry price. -/
def notional (p : Position) : Except ArithmeticError Decimal :=
  p.size.mul p.entryPrice "position notional"

/-- The gain of the position at a price. -/
def pnlAt (p : Position) (mark : Price) : Except ArithmeticError Amount :=
  Clearing.unrealizedPnl p.side p.size p.entryPrice mark

/-- Whether the price has reached the liquidation price, or the collateral is exhausted anyway. -/
def isLiquidatableAt (p : Position) (mark : Price) : Bool :=
  match p.side with
  | .long => p.liquidationPrice.isZero || decide (mark ≤ p.liquidationPrice)
  | .short =>
    p.liquidationPrice.cmp .greatest == .eq || decide (p.liquidationPrice ≤ mark)

/-- Whether the position gained at the price it was last marked at. -/
def isProfitable (p : Position) : Bool :=
  decide (Decimal.zero < p.unrealizedPnl)

end Position

end Clearing

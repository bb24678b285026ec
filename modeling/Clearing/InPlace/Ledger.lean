import Clearing.Deleverage.Queue
import Clearing.InPlace.Edit
import Clearing.Ledger.Mark
import Clearing.Ledger.Trade

/-!
The operations on a ledger, in place.

The ledger changes field by field, and whoever follows the positions is told in between.  All
that can fail comes before the first write.
-/

namespace Clearing

/-- Someone who follows the positions of a ledger. -/
class Observer (ω : Type) where
  notify : ω → Notice → ω

instance : Observer DeleverageQueue := ⟨DeleverageQueue.notify⟩

/-- Notices put aside. -/
structure Deferred where
  pending : List Notice

instance : Observer Deferred := ⟨fun d notice => ⟨d.pending ++ [notice]⟩⟩

/-- A ledger and who follows it. -/
structure Observed (ω : Type) where
  ledger : Ledger
  observer : ω

namespace Observed

variable {ω : Type} [Observer ω] {α : Type}

/-- The result of an operation, the ledger it leaves, and the observer told of it. -/
def take (s : Observed ω) (posted : Ledger.Posted α) : α × Observed ω :=
  (posted.result, ⟨posted.ledger, posted.notices.foldl Observer.notify s.observer⟩)

end Observed

namespace Ledger

namespace InPlace

variable {ω : Type} [Observer ω] {α : Type}

/-- Reads the ledger, and can fail. -/
def check (f : Ledger → Attempt α) : Edit (Observed ω) LedgerError α :=
  .check fun s => f s.ledger

/-- Writes the ledger. -/
def write (f : Ledger → Ledger) : Edit (Observed ω) LedgerError Unit :=
  .write fun s => { s with ledger := f s.ledger }

/-- Tells the observer. -/
def notify (notice : Notice) : Edit (Observed ω) LedgerError Unit :=
  .write fun s => { s with observer := Observer.notify s.observer notice }

/-- Opens a position and returns its number. -/
def openPosition (order : Order) (schedule : MarginSchedule) (now : Instant) :
    Edit (Observed ω) LedgerError PositionId := do
  let tier ← .attempt (refusing (fun cause => cause) (acceptOrder order schedule))
  let notional ← .attempt (computing (order.size.mul order.entryPrice "position notional"))
  .attempt (requireInitialMargin tier notional order.collateral)
  let price ← .attempt (inTermsOf .arithmetic
    (liquidationPrice order.side order.size order.entryPrice order.collateral tier))
  let number ← .read fun s => Nat.max s.ledger.nextId 1
  let p := order.toPosition ⟨number⟩ price now
  let oi ← check fun l => computing ((l.openInterest p.market).change p.side p.size)
  let portfolio ← check fun l =>
    computing (Portfolio.ofPositions p.owner (l.positionsOf p.owner ++ [p]) now)
  let notice ← .attempt (computing (p.notice now))
  write fun l => { l with nextId := number + 1 }
  write fun l => { l with openInterests := l.openInterests.insert p.market oi }
  write fun l =>
    { l with byOwner := l.byOwner.insert p.owner ((l.byOwner.get? p.owner).getD [] ++ [p.id]) }
  write fun l =>
    { l with
      byMarket := l.byMarket.insert p.market (((l.byMarket.get? p.market).getD .empty).add p.id) }
  write fun l => { l with portfolios := l.portfolios.insert portfolio.owner portfolio }
  notify notice
  write (·.record ⟨p, p.isLiquidatableAt p.entryPrice⟩)
  return p.id

/-- Writes a change to a position. -/
def amend (current updated : Position) (mark : Price) (tier : MarginTier) (now : Instant) :
    Edit (Observed ω) LedgerError Unit := do
  let price ← .attempt (inTermsOf .arithmetic
    (liquidationPrice updated.side updated.size updated.entryPrice updated.collateral tier))
  let pnl ← .attempt (computing (updated.pnlAt mark))
  let p : Position :=
    { updated with liquidationPrice := price, unrealizedPnl := pnl, updatedAt := now }
  let delta ← .attempt (computing (p.size.sub current.size "open interest delta"))
  let oi ← check fun l => computing ((l.openInterest p.market).change p.side delta)
  let portfolio ← check fun l =>
    computing (Portfolio.ofPositions p.owner (l.positionsWith p) now)
  let notice ← .attempt (computing (p.notice now))
  write fun l => { l with openInterests := l.openInterests.insert p.market oi }
  write fun l => { l with portfolios := l.portfolios.insert portfolio.owner portfolio }
  notify notice
  write (·.record ⟨p, p.isLiquidatableAt mark⟩)

/-- Changes size and collateral of a position, and returns what a reduction realized. -/
def modify (id : PositionId) (sizeDelta : Decimal) (collateralDelta : Amount) (price : Price)
    (schedule : MarginSchedule) (now : Instant) : Edit (Observed ω) LedgerError Amount := do
  let current ← check (·.get id)
  let tier? :=
    if .zero < sizeDelta then schedule.activeTier? current.market
    else schedule.tier? current.market
  let some tier := tier? | .attempt (refuse (.marketNotConfigured current.market))
  let pnl ← .attempt (computing (current.pnlAt price))
  let (resized, realized) ← .attempt (resize current sizeDelta pnl price)
  let collateral ← .attempt
    (computing (current.collateral.add collateralDelta "collateral"))
  if collateral ≤ .zero then
    .attempt (refuse (.insufficientCollateral current.collateral))
  let updated := { resized with collateral := collateral }
  if .zero < sizeDelta ∨ collateralDelta < .zero then
    let notional ← .attempt (computing updated.notional)
    .attempt (requireInitialMargin tier notional collateral)
  let total ← .attempt (computing (updated.realizedPnl.add realized "realized pnl"))
  amend current { updated with realizedPnl := total } price tier now
  return realized

/-- Closes a position. -/
def close (id : PositionId) (price : Price) (now : Instant) :
    Edit (Observed ω) LedgerError Closure := do
  let p ← check (·.get id)
  let pnl ← .attempt (computing (p.pnlAt price))
  let realized ← .attempt (computing (pnl.add p.accumulatedFunding "close pnl"))
  let oi ← check fun l => computing ((l.openInterest p.market).change p.side (-p.size))
  let portfolio ← check fun l =>
    computing (Portfolio.ofPositions p.owner ((l.positionsOf p.owner).filter (·.id ≠ id)) now)
  write fun l => { l with openInterests := l.openInterests.insert p.market oi }
  write fun l => { l with entries := l.entries.erase p.id }
  write fun l => { l with byOwner := withoutPosition l.byOwner p }
  write fun l =>
    { l with
      byMarket :=
        match l.byMarket.get? p.market with
        | none => l.byMarket
        | some ids => l.byMarket.insert p.market (Table.erase ids p.id) }
  write fun l => { l with portfolios := l.portfolios.insert portfolio.owner portfolio }
  notify (.left p.market id p.side)
  return ⟨p, price, realized⟩

/-- Takes `amount` off a position against the will of its owner. -/
def forceReduce (id : PositionId) (amount : Decimal) (price : Price) (schedule : MarginSchedule)
    (now : Instant) : Edit (Observed ω) LedgerError Reduction := do
  if amount ≤ .zero then .attempt (refuse (.invalidSize amount))
  let current ← check (·.get id)
  let reduction : Decimal → Amount → Bool → Reduction :=
    fun size realized whole =>
      ⟨id, current.owner, current.market, current.side, size, realized, whole⟩
  if current.size ≤ amount then
    let closed ← close id price now
    return reduction current.size closed.realizedPnl true
  else
    let some tier := schedule.tier? current.market
      | .attempt (refuse (.marketNotConfigured current.market))
    let pnl ← .attempt (computing (current.pnlAt price))
    let realized ← .attempt (computing (proportionalPnl pnl amount current.size))
    let size ← .attempt (computing (current.size.sub amount "position size"))
    let total ← .attempt (computing (current.realizedPnl.add realized "realized pnl"))
    amend current { current with size := size, realizedPnl := total } price tier now
    return reduction amount realized false

/-- Marks one position, and says whether it can be liquidated. -/
def refresh (id : PositionId) (mark : Price) (now : Instant) :
    Edit (Observed ω) LedgerError Bool := do
  let p ← check (·.get id)
  let pnl ← .attempt (computing (p.pnlAt mark))
  let p := { p with unrealizedPnl := pnl }
  let liquidatable := p.isLiquidatableAt mark
  let portfolio ← check fun l =>
    computing (Portfolio.ofPositions p.owner (l.positionsWith p) now)
  let notice ← .attempt (computing (p.notice now))
  notify notice
  write fun l => { l with portfolios := l.portfolios.insert p.owner portfolio }
  write (·.record ⟨p, liquidatable⟩)
  return liquidatable

/-- Marks every position of a market, and returns those that can be liquidated, ascending. -/
def refreshMarket (market : MarketId) (mark : Price) (now : Instant) :
    Edit (Observed ω) LedgerError (List PositionId) := do
  let ids ← .read (·.ledger.idsIn market)
  let marked ← ids.mapM fun id => do
    let p ← check (·.get id)
    .attempt (computing (markAt p mark now))
  let owners := (KeySet.ofList (marked.map (·.entry.position.owner))).keys
  let portfolios ← owners.mapM fun owner =>
    check fun l => computing (Portfolio.ofPositions owner (l.positionsMarked marked owner) now)
  portfolios.forM fun p => write fun l => { l with portfolios := l.portfolios.insert p.owner p }
  marked.forM fun m => do
    notify m.notice
    write (·.record m.entry)
  return (marked.filter (·.entry.liquidatable)).map (·.entry.position.id)

/-- Books a list of payments. -/
def applyFunding (payments : List (PositionId × Amount)) (index : Decimal) (now : Instant) :
    Edit Ledger LedgerError Unit := do
  let totals ← payments.mapM fun payment =>
    .check fun l => refusing (fun cause => cause) (l.accumulated payment)
  totals.forM fun total => .write fun l => bookFunding index now l total

end InPlace

end Ledger

end Clearing

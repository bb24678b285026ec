import Clearing.Ledger.Basic

/-!
Marking positions at a price, and booking funding on them.

Marking renews the gain and the liquidation flag of a position and the portfolio of its owner.
A whole market is marked at once: first every position is worked out, then every portfolio, and
only then is anything written.  Booking funding touches neither gains nor portfolios.
-/

namespace Clearing

namespace Ledger

/-- A position marked at a price, ready to be written. -/
structure Marked where
  entry : Entry
  notice : Notice

/-- Works out what a position is at a price. -/
def markAt (p : Position) (mark : Price) (now : Instant) : Except ArithmeticError Marked := do
  let pnl ← p.pnlAt mark
  let p := { p with unrealizedPnl := pnl }
  let notice ← p.notice now
  return ⟨⟨p, p.isLiquidatableAt mark⟩, notice⟩

/-- Marks one position, and says whether it can be liquidated. -/
def refresh (l : Ledger) (id : PositionId) (mark : Price) (now : Instant) :
    Except LedgerError (Posted Bool) := do
  let p ← l.find id
  let pnl ← (p.pnlAt mark).mapError .arithmetic
  let p := { p with unrealizedPnl := pnl }
  let liquidatable := p.isLiquidatableAt mark
  let portfolio ←
    (Portfolio.ofPositions p.owner (l.positionsWith p) now).mapError .arithmetic
  let notice ← (p.notice now).mapError .arithmetic
  let next := { l with portfolios := l.portfolios.insert p.owner portfolio }
  return ⟨liquidatable, next.record ⟨p, liquidatable⟩, [notice]⟩

/-- The positions of an owner, with the marked ones among them as they were marked. -/
def positionsMarked (l : Ledger) (marked : List Marked) (owner : AccountId) : List Position :=
  (l.positionsOf owner).map fun p =>
    match marked.find? (·.entry.position.id = p.id) with
    | some m => m.entry.position
    | none => p

/-- Marks every position of a market, and returns those that can be liquidated, ascending. -/
def refreshMarket (l : Ledger) (market : MarketId) (mark : Price) (now : Instant) :
    Except LedgerError (Posted (List PositionId)) := do
  let marked ← (l.idsIn market).mapM fun id => do
    let p ← l.find id
    (markAt p mark now).mapError .arithmetic
  let owners := (KeySet.ofList (marked.map (·.entry.position.owner))).keys
  let portfolios ← owners.mapM fun owner =>
    (Portfolio.ofPositions owner (l.positionsMarked marked owner) now).mapError .arithmetic
  let withPortfolios :=
    { l with portfolios := portfolios.foldl (fun t p => t.insert p.owner p) l.portfolios }
  let next := marked.foldl (fun l m => l.record m.entry) withPortfolios
  let liquidatable := (marked.filter (·.entry.liquidatable)).map (·.entry.position.id)
  return ⟨liquidatable, next, marked.map (·.notice)⟩

/-- Adds a payment to what a position has accumulated. -/
def accumulated (l : Ledger) (payment : PositionId × Amount) :
    Except LedgerError (PositionId × Amount) := do
  let p ← l.find payment.1
  let total ← (p.accumulatedFunding.add payment.2 "accumulated funding").mapError .arithmetic
  return (payment.1, total)

/-- Writes the accumulated funding of an open position. -/
def bookFunding (index : Decimal) (now : Instant) (l : Ledger) (total : PositionId × Amount) :
    Ledger :=
  match l.entries.get? total.1 with
  | none => l
  | some entry =>
    { l with
      entries := l.entries.insert total.1
        { entry with
          position :=
            { entry.position with
              accumulatedFunding := total.2, fundingIndex := index, updatedAt := now } } }

/--
Books a list of payments, all or none.  Every total is worked out from what the ledger held
before the first of them, so of two payments to one position the later counts.
-/
def applyFunding (l : Ledger) (payments : List (PositionId × Amount)) (index : Decimal)
    (now : Instant) : Except LedgerError Ledger := do
  let totals ← payments.mapM l.accumulated
  return totals.foldl (bookFunding index now) l

end Ledger

end Clearing

import Clearing.Decimal.Text
import Clearing.Deleverage.Candidate
import Clearing.Margin.Schedule
import Clearing.Position.OpenInterest
import Clearing.Position.Portfolio

/-!
The ledger of open positions.

A ledger keeps every open position together with what is derived from it: the two indices by
owner and by market, the open interest of each market and the portfolio of each owner.  All of
them are views of one set of positions, and each operation brings all of them along.

An operation is a function from a ledger to what was posted: its result, the next ledger, and
the notices for whoever ranks candidates for deleveraging.  One that is refused posts nothing.
-/

namespace Clearing

/-- Why a ledger refuses. -/
inductive LedgerError where
  | notFound (position : PositionId)
  | invalidSize (size : Decimal)
  | insufficientCollateral (collateral : Amount)
  | marketNotConfigured (market : MarketId)
  | leverageExceedsMax (requested max : Leverage)
  | insufficientInitialMargin (required provided : Amount)
  | arithmetic (cause : ArithmeticError)
deriving DecidableEq

/-- The error in words. -/
def LedgerError.message : LedgerError → String
  | notFound position => s!"Position {position.text} not found"
  | invalidSize size => s!"Invalid size {size.text}"
  | insufficientCollateral collateral => s!"Insufficient collateral: {collateral.text}"
  | marketNotConfigured market => s!"Market {market.text} is not configured or inactive"
  | leverageExceedsMax requested max =>
    s!"Leverage {requested.text} exceeds market max {max.text}"
  | insufficientInitialMargin required provided =>
    s!"Insufficient initial margin: required {required.text}, provided {provided.text}"
  | arithmetic cause => cause.message

namespace Ledger

/-- A position with the flag that says whether it could be liquidated when it was last marked. -/
structure Entry where
  position : Position
  liquidatable : Bool
deriving DecidableEq

end Ledger

/-- The open positions and their indices, open interest and portfolios. -/
structure Ledger where
  entries : Table PositionId Ledger.Entry
  /-- The positions of each owner, in the order they were opened. -/
  byOwner : Table AccountId (List PositionId)
  byMarket : Table MarketId (KeySet PositionId)
  openInterests : Table MarketId OpenInterest
  portfolios : Table AccountId Portfolio
  nextId : Nat
deriving DecidableEq

namespace Ledger

/-- A ledger without positions that numbers from `first`, but not below one. -/
def startingAt (first : Nat) : Ledger :=
  ⟨.empty, .empty, .empty, .empty, .empty, first⟩

/-- The ledger without positions. -/
def empty : Ledger := startingAt 1

/-! ### Queries -/

/-- An open position. -/
def position? (l : Ledger) (id : PositionId) : Option Position :=
  (l.entries.get? id).map (·.position)

/-- Whether a position could be liquidated when it was last marked. -/
def isLiquidatable? (l : Ledger) (id : PositionId) : Option Bool :=
  (l.entries.get? id).map (·.liquidatable)

/-- Whether a position is open. -/
def contains (l : Ledger) (id : PositionId) : Bool :=
  l.entries.contains id

/-- How many positions are open. -/
def size (l : Ledger) : Nat :=
  l.entries.size

/-- The position, which must be open. -/
def find (l : Ledger) (id : PositionId) : Except LedgerError Position :=
  match l.position? id with
  | some p => .ok p
  | none => .error (.notFound id)

/-- The open positions of an owner, in the order they were opened. -/
def positionsOf (l : Ledger) (owner : AccountId) : List Position :=
  ((l.byOwner.get? owner).getD []).filterMap l.position?

/-- The numbers of the open positions in a market, ascending. -/
def idsIn (l : Ledger) (market : MarketId) : List PositionId :=
  ((l.byMarket.get? market).getD .empty).keys

/-- The open positions in a market, by ascending number. -/
def positionsIn (l : Ledger) (market : MarketId) : List Position :=
  (l.idsIn market).filterMap l.position?

/-- How much is open in a market. -/
def openInterest (l : Ledger) (market : MarketId) : OpenInterest :=
  (l.openInterests.get? market).getD .none

/-- The portfolio of an owner, from the first position they open. -/
def portfolio? (l : Ledger) (owner : AccountId) : Option Portfolio :=
  l.portfolios.get? owner

/-! ### Posting -/

/-- What an operation leaves: its result, the next ledger, and what to report. -/
structure Posted (α : Type) where
  result : α
  ledger : Ledger
  notices : List Notice

/-- An operation on a ledger can be refused, or stop at an unchecked sum. -/
abbrev Attempt (α : Type) := Except (Failure LedgerError) α

/-- An arithmetic step within an operation. -/
def computing {α : Type} (x : Except ArithmeticError α) : Attempt α :=
  refusing .arithmetic x

/-- The position an operation is about, which must be open. -/
def get (l : Ledger) (id : PositionId) : Attempt Position :=
  refusing (fun cause => cause) (l.find id)

/-- The positions of an owner with one of them, changed, in place of what is kept. -/
def positionsWith (l : Ledger) (changed : Position) : List Position :=
  (l.positionsOf changed.owner).map fun p => if p.id = changed.id then changed else p

/-- Writes a changed position over the one that is kept. -/
def record (l : Ledger) (entry : Entry) : Ledger :=
  { l with entries := l.entries.insert entry.position.id entry }

/-- Writes the open interest of a market and the portfolio of an owner. -/
def settleTotals (l : Ledger) (market : MarketId) (oi : OpenInterest) (portfolio : Portfolio) :
    Ledger :=
  { l with
    openInterests := l.openInterests.insert market oi
    portfolios := l.portfolios.insert portfolio.owner portfolio }

/-- Adds a position to both indices. -/
def enroll (l : Ledger) (p : Position) : Ledger :=
  { l with
    byOwner := l.byOwner.insert p.owner ((l.byOwner.get? p.owner).getD [] ++ [p.id])
    byMarket := l.byMarket.insert p.market (((l.byMarket.get? p.market).getD .empty).add p.id) }

/-- Takes a position out of an index by owner; an owner without positions is not kept there. -/
def withoutPosition (index : Table AccountId (List PositionId)) (p : Position) :
    Table AccountId (List PositionId) :=
  match index.get? p.owner with
  | none => index
  | some ids =>
    match ids.filter (· ≠ p.id) with
    | [] => index.erase p.owner
    | rest => index.insert p.owner rest

/-- Takes a position out of the ledger and both indices. -/
def dismiss (l : Ledger) (p : Position) : Ledger :=
  { l with
    entries := l.entries.erase p.id
    byOwner := withoutPosition l.byOwner p
    byMarket :=
      match l.byMarket.get? p.market with
      | none => l.byMarket
      | some ids => l.byMarket.insert p.market (Table.erase ids p.id) }

/-- Refuses collateral below the initial margin. -/
def requireInitialMargin (tier : MarginTier) (notional : Decimal) (collateral : Amount) :
    Attempt Unit := do
  let required ← computing (tier.initialMargin notional)
  if collateral < required then refuse (.insufficientInitialMargin required collateral)

end Ledger

end Clearing

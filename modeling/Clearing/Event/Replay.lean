import Clearing.Event.Journal
import Clearing.Position.Basic

/-!
Open positions rebuilt from events.

Whoever reads the journal and sees nothing of the ledger can keep a table of the open positions:
who holds what, and what funding it got.  An event says how the table changes.  One that does not
fit the table has no outcome: it tells of a position that is not in it, opens one that is, or asks
for a sum that does not exist.
-/

namespace Clearing

/-- What the events tell of an open position. -/
structure Holding where
  market : MarketId
  owner : AccountId
  side : Side
  size : Decimal
  collateral : Amount
  funding : Amount
deriving DecidableEq

namespace Holding

/-- Takes some of the size away. -/
def reduce (amount : Decimal) (held : Holding) : Option Holding :=
  (held.size.sub? amount).map fun size => { held with size := size }

/-- Adds a payment to the funding. -/
def pay (amount : Amount) (held : Holding) : Option Holding :=
  (held.funding.add? amount).map fun funding => { held with funding := funding }

end Holding

/-- What the events tell of a position. -/
def Position.holding (p : Position) : Holding :=
  ⟨p.market, p.owner, p.side, p.size, p.collateral, p.accumulatedFunding⟩

/-- The open positions, as far as the events tell of them. -/
abbrev Holdings := Table PositionId Holding

namespace Holdings

/-- Enters a position under a number that is not taken. -/
def enter (t : Holdings) (id : PositionId) (held : Holding) : Option Holdings :=
  if Table.contains t id then none else some (Table.insert t id held)

/-- Changes the position under a number, where there is one and the change exists. -/
def alter (t : Holdings) (id : PositionId) (change : Holding → Option Holding) :
    Option Holdings :=
  ((Table.get? t id).bind change).map (Table.insert t id)

/-- Removes the position under a number, where there is one. -/
def leave (t : Holdings) (id : PositionId) : Option Holdings :=
  if Table.contains t id then some (Table.erase t id) else none

end Holdings

/-- How an event changes the table. -/
def Payload.replay (t : Holdings) : Payload → Option Holdings
  | .positionOpened e =>
    Holdings.enter t e.position ⟨e.market, e.owner, e.side, e.size, e.collateral, .zero⟩
  | .positionModified e =>
    Holdings.alter t e.position fun held =>
      some { held with size := e.newSize, collateral := e.newCollateral }
  | .positionDeleveraged e => Holdings.alter t e.position (Holding.reduce e.sizeClosed)
  | .positionClosed e => Holdings.leave t e.position
  | .fundingPaid e => Holdings.alter t e.position (Holding.pay e.amount)
  | _ => some t

namespace Journal

/-- The open positions that the events tell of, beginning with none. -/
def replay (j : Journal) : Option Holdings :=
  (j.events.map (·.payload)).foldlM Payload.replay .empty

/-- No event was dropped or forgotten: there are as many as numbers were given. -/
def Complete (j : Journal) : Prop :=
  j.events.length + 1 = j.nextId

instance (j : Journal) : Decidable j.Complete :=
  inferInstanceAs (Decidable (_ = _))

end Journal

end Clearing

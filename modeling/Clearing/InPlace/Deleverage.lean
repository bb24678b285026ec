import Clearing.Deleverage.Execution
import Clearing.InPlace.Ledger

/-!
Deleveraging, in place.

The walk reduces position after position in the ledger itself.  It keeps a copy of the ledger from
before, and where a reduction is refused the copy comes back in its place.  What the ledger tells
in between is put aside and never read.  The queue is written only after the whole walk.
-/

namespace Clearing

namespace DeleverageQueue

namespace InPlace

/-- What a walk has counted: what is missing, what was closed, and from whom. -/
structure Tally where
  remaining : Decimal
  closed : Decimal
  deleveraged : List Deleveraged

/-- Walks down the picks until nothing is missing. -/
def walk (checkpoint : Ledger) (shortfall : Shortfall) (schedule : MarginSchedule)
    (now : Instant) :
    List (Nat × Candidate) → Tally → Edit (Observed Deferred) DeleverageError Tally
  | [], t => return t
  | pick :: rest, t => do
    if t.remaining ≤ .zero then return t
    match ← .read (·.ledger.position? pick.2.position) with
    | none => walk checkpoint shortfall schedule now rest t
    | some p =>
      let amount := t.remaining.min p.size
      let reduction ←
        ((Ledger.InPlace.forceReduce pick.2.position amount shortfall.price schedule now).reworded
          .forcedClose).orRestore fun s => { s with ledger := checkpoint }
      let remaining ← .attempt (t.remaining.subOrStop reduction.sizeClosed)
      let closed ← .attempt (t.closed.addOrStop reduction.sizeClosed)
      walk checkpoint shortfall schedule now rest {
        remaining := remaining
        closed := closed
        deleveraged := t.deleveraged ++
          [⟨pick.2.position, pick.2.owner, pick.1, reduction.sizeClosed, reduction.realizedPnl,
            reduction.fullyClosed⟩] }

/-- Works on the ledger while its notices are put aside. -/
def deferring {ω ε α : Type} (x : Edit (Observed Deferred) ε α) : Edit (Observed ω) ε α := fun s =>
  match x ⟨s.ledger, ⟨[]⟩⟩ with
  | .ok a next => .ok a { s with ledger := next.ledger }
  | .error e left => .error e { s with ledger := left.ledger }

/-- Writes the queue. -/
def write (f : DeleverageQueue → DeleverageQueue) :
    Edit (Observed DeleverageQueue) DeleverageError Unit :=
  .write fun s => { s with observer := f s.observer }

/-- Covers a shortfall from the other side of the market, as far as it goes. -/
def execute (schedule : MarginSchedule) (shortfall : Shortfall) (now : Instant) :
    Edit (Observed DeleverageQueue) DeleverageError Coverage := do
  let terms ← .check fun s => refusing id (s.observer.permit shortfall now)
  let lane := shortfall.lane
  let stale ← .read fun s => s.observer.stale s.ledger lane
  let picks ← .read fun s => s.observer.picks s.ledger terms lane
  if picks.isEmpty then .attempt (refuse (.noCandidates shortfall.market lane.side))
  let checkpoint ← .read (·.ledger)
  let t ← deferring <|
    walk checkpoint shortfall schedule now picks ⟨shortfall.size, .zero, []⟩
  let closedPositions := t.deleveraged.map (·.position)
  (closedPositions ++ stale.map (·.position)).forM fun id => write (·.remove lane id)
  let number ← .read (·.observer.nextExecution)
  write fun q => { q with nextExecution := number + 1 }
  write (·.remember {
    id := number
    market := shortfall.market
    liquidatedPosition := shortfall.liquidated
    liquidatedSide := shortfall.side
    closedPositions := closedPositions
    totalSizeClosed := t.closed
    price := shortfall.price
    timestamp := now })
  write fun q =>
    { q with
      eventCounts := q.eventCounts.insert shortfall.market (q.eventCount shortfall.market + 1) }
  write fun q => { q with lastExecutions := q.lastExecutions.insert shortfall.market now }
  return ⟨number, decide (shortfall.size ≤ t.closed), t.closed, t.deleveraged⟩

end InPlace

end DeleverageQueue

end Clearing

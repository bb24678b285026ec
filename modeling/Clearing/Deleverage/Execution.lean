import Clearing.Deleverage.Queue
import Clearing.Ledger.Trade

/-!
Deleveraging: what a liquidation could not fill is taken from the candidates on the other side.

The walk goes down the ranking and takes from each candidate as much as is still missing, up to
its size, until nothing is missing or the most positions for one execution have been touched.
Candidates that are no longer open do not count toward that number.  Whoever was touched leaves
the queue, a partly reduced position too, until it is marked again.

Either the whole walk succeeds or nothing has happened.
-/

namespace Clearing

/-- What a liquidation left unfilled. -/
structure Shortfall where
  market : MarketId
  liquidated : PositionId
  /-- The side of the liquidated position; candidates come from the other one. -/
  side : Side
  size : Decimal
  price : Price
deriving DecidableEq

/-- The lane that a shortfall is covered from. -/
def Shortfall.lane (shortfall : Shortfall) : Lane :=
  ⟨shortfall.market, shortfall.side.opposite⟩

/-- What was taken from a candidate. -/
structure Deleveraged where
  position : PositionId
  owner : AccountId
  rank : Nat
  sizeClosed : Decimal
  realizedPnl : Amount
  fullyClosed : Bool
deriving DecidableEq

/-- What an execution achieved. -/
structure Coverage where
  execution : Nat
  fullyCovered : Bool
  totalClosed : Decimal
  deleveraged : List Deleveraged
deriving DecidableEq

namespace DeleverageQueue

/-- The state of a walk: the ledger so far, what is missing, what was closed, and from whom. -/
structure Walk where
  ledger : Ledger
  remaining : Decimal
  closed : Decimal
  deleveraged : List Deleveraged

/-- Takes from one candidate, unless nothing is missing or the position is not open. -/
def Walk.take (shortfall : Shortfall) (schedule : MarginSchedule) (now : Instant)
    (w : Walk) (pick : Nat × Candidate) : Except (Failure DeleverageError) Walk := do
  if w.remaining ≤ .zero then return w
  match w.ledger.position? pick.2.position with
  | none => return w
  | some p =>
    let posted ← inTermsOf .forcedClose
      (w.ledger.forceReduce pick.2.position (w.remaining.min p.size) shortfall.price schedule now)
    let reduction := posted.result
    let remaining ← w.remaining.subOrStop reduction.sizeClosed
    let closed ← w.closed.addOrStop reduction.sizeClosed
    return {
      ledger := posted.ledger
      remaining := remaining
      closed := closed
      deleveraged := w.deleveraged ++
        [⟨pick.2.position, pick.2.owner, pick.1, reduction.sizeClosed, reduction.realizedPnl,
          reduction.fullyClosed⟩] }

/-- Refuses an execution before the grace period since the last one is over. -/
def requireGrace (q : DeleverageQueue) (market : MarketId) (terms : DeleverageTerms)
    (now : Instant) : Except DeleverageError Unit :=
  match q.lastExecution? market with
  | none => .ok ()
  | some last =>
    let ready := last.plusSeconds terms.gracePeriod
    if 0 < terms.gracePeriod ∧ now < ready then
      let remaining := now.secondsUntil ready
      .error (.gracePeriod market (if remaining < 1 then 1 else remaining))
    else .ok ()

/-- The terms of a market, where they are active. -/
def activeTerms (q : DeleverageQueue) (market : MarketId) :
    Except DeleverageError DeleverageTerms :=
  match (q.terms? market).filter (·.active) with
  | some terms => .ok terms
  | none => .error (.notEnabled market)

/-- The checks before a walk, in this order: active terms, a size, the grace period. -/
def permit (q : DeleverageQueue) (shortfall : Shortfall) (now : Instant) :
    Except DeleverageError DeleverageTerms := do
  let terms ← q.activeTerms shortfall.market
  if shortfall.size ≤ .zero then throw (.invalidSize shortfall.size)
  q.requireGrace shortfall.market terms now
  return terms

/-- The candidates an execution turns to, each with its rank: as many of those whose position is
open as one execution may touch. -/
def picks (q : DeleverageQueue) (ledger : Ledger) (terms : DeleverageTerms) (lane : Lane) :
    List (Nat × Candidate) :=
  let live := (q.candidates lane).filter fun c => ledger.contains c.position
  let first := live.take terms.maxPositions.toNat
  (List.range' 1 first.length).zip first

/-- The candidates whose position is no longer open. -/
def stale (q : DeleverageQueue) (ledger : Ledger) (lane : Lane) : List Candidate :=
  (q.candidates lane).filter fun c => !ledger.contains c.position

/-- A walk that has not begun. -/
def Walk.start (ledger : Ledger) (shortfall : Shortfall) : Walk :=
  ⟨ledger, shortfall.size, .zero, []⟩

/-- Covers a shortfall from the other side of the market, as far as it goes. -/
def execute (q : DeleverageQueue) (ledger : Ledger) (schedule : MarginSchedule)
    (shortfall : Shortfall) (now : Instant) :
    Except (Failure DeleverageError) (Coverage × DeleverageQueue × Ledger) := do
  let terms ← refusing id (q.permit shortfall now)
  let lane := shortfall.lane
  let picks := q.picks ledger terms lane
  if picks.isEmpty then refuse (.noCandidates shortfall.market lane.side)
  let walk ← picks.foldlM (Walk.take shortfall schedule now) (.start ledger shortfall)
  let closedPositions := walk.deleveraged.map (·.position)
  let leaving := closedPositions ++ (q.stale ledger lane).map (·.position)
  let left := leaving.foldl (fun q id => q.remove lane id) q
  let execution : Execution := {
    id := q.nextExecution
    market := shortfall.market
    liquidatedPosition := shortfall.liquidated
    liquidatedSide := shortfall.side
    closedPositions := closedPositions
    totalSizeClosed := walk.closed
    price := shortfall.price
    timestamp := now }
  let next := { left.remember execution with
    nextExecution := q.nextExecution + 1
    eventCounts := left.eventCounts.insert shortfall.market (q.eventCount shortfall.market + 1)
    lastExecutions := left.lastExecutions.insert shortfall.market now }
  let coverage : Coverage :=
    ⟨execution.id, decide (shortfall.size ≤ walk.closed), walk.closed, walk.deleveraged⟩
  return (coverage, next, walk.ledger)

end DeleverageQueue

end Clearing

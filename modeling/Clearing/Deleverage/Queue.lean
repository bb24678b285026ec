import Clearing.Deleverage.Ranking
import Clearing.Deleverage.Terms

/-!
The deleveraging queue of all markets: who would be deleveraged next, on which terms, and what
has been done so far.

The queue reads notices about positions and never looks into a ledger, except when it executes.
-/

namespace Clearing

/-- The record of one execution. -/
structure Execution where
  id : Nat
  market : MarketId
  liquidatedPosition : PositionId
  liquidatedSide : Side
  closedPositions : List PositionId
  totalSizeClosed : Decimal
  price : Price
  timestamp : Instant
deriving DecidableEq

/-- Rankings, terms and past executions. -/
@[ext]
structure DeleverageQueue where
  terms : Table MarketId DeleverageTerms
  rankings : Table Lane Ranking
  /-- The latest executions, the oldest first. -/
  history : List Execution
  maxHistory : Nat
  /-- How many executions each market has seen. -/
  eventCounts : Table MarketId Nat
  lastExecutions : Table MarketId Instant
  nextExecution : Nat
deriving DecidableEq

namespace DeleverageQueue

/-- A queue that remembers so many executions. -/
def empty (maxHistory : Nat) : DeleverageQueue :=
  ⟨.empty, .empty, [], maxHistory, .empty, .empty, 1⟩

/-- How many executions are remembered where nothing else is asked for. -/
def defaultHistory : Nat := 1000

/-! ### Terms -/

/-- The terms of a market. -/
def terms? (q : DeleverageQueue) (market : MarketId) : Option DeleverageTerms :=
  q.terms.get? market

/-- Installs terms, which are active from then on, and returns the earlier ones. -/
def configure (q : DeleverageQueue) (market : MarketId) (terms : DeleverageTerms) :
    Except DeleverageError (Option DeleverageTerms × DeleverageQueue) := do
  terms.validate
  return (q.terms? market,
    { q with terms := q.terms.insert market { terms with active := true } })

/-- Switches the terms of a market between active and inactive, and says which they are now. -/
def toggle (q : DeleverageQueue) (market : MarketId) :
    Except DeleverageError (Bool × DeleverageQueue) :=
  match q.terms? market with
  | some terms =>
    .ok (!terms.active,
      { q with terms := q.terms.insert market { terms with active := !terms.active } })
  | none => .error (.notConfigured market)

/-! ### Candidates -/

/-- The ranking of one side of a market. -/
def ranking (q : DeleverageQueue) (lane : Lane) : Ranking :=
  (q.rankings.get? lane).getD .empty

/-- The candidates of one side of a market, first to be deleveraged first. -/
def candidates (q : DeleverageQueue) (lane : Lane) : List Candidate :=
  (q.ranking lane).candidates

/-- How many candidates there are on one side of a market. -/
def length (q : DeleverageQueue) (lane : Lane) : Nat :=
  (q.ranking lane).order.length

/-- Whether a position is a candidate on one side of a market. -/
def contains (q : DeleverageQueue) (lane : Lane) (id : PositionId) : Bool :=
  ((q.ranking lane).ranked? id).isSome

/-- The place of a candidate on one side of a market, counting from one. -/
def rank? (q : DeleverageQueue) (lane : Lane) (id : PositionId) : Option Nat :=
  (q.ranking lane).rank? id

/-- Takes a position out of one side of a market. -/
def remove (q : DeleverageQueue) (lane : Lane) (id : PositionId) : DeleverageQueue :=
  match q.rankings.get? lane with
  | none => q
  | some ranking => { q with rankings := q.rankings.insert lane (ranking.remove id) }

/-- Brings a candidate up to date; one without a gain leaves. -/
def update (q : DeleverageQueue) (c : Candidate) : DeleverageQueue :=
  if c.isProfitable then
    { q with rankings := q.rankings.insert c.lane ((q.ranking c.lane).upsert c) }
  else q.remove c.lane c.position

/-- Reads a notice. -/
def notify (q : DeleverageQueue) : Notice → DeleverageQueue
  | .gaining candidate => q.update candidate
  | .left market position side => q.remove ⟨market, side⟩ position

/-- Reads notices in turn. -/
def notifyAll (q : DeleverageQueue) (notices : List Notice) : DeleverageQueue :=
  notices.foldl notify q

/-! ### Past executions -/

/-- How many executions a market has seen. -/
def eventCount (q : DeleverageQueue) (market : MarketId) : Nat :=
  (q.eventCounts.get? market).getD 0

/-- When a market last saw an execution. -/
def lastExecution? (q : DeleverageQueue) (market : MarketId) : Option Instant :=
  q.lastExecutions.get? market

/-- The remembered executions of a market, the oldest first. -/
def historyOf (q : DeleverageQueue) (market : MarketId) : List Execution :=
  q.history.filter (·.market = market)

/-- A remembered execution. -/
def execution? (q : DeleverageQueue) (id : Nat) : Option Execution :=
  q.history.find? (·.id = id)

/-- Adds an execution to the record, forgetting the oldest ones beyond what is remembered. -/
def remember (q : DeleverageQueue) (e : Execution) : DeleverageQueue :=
  let history := q.history ++ [e]
  { q with history := history.drop (history.length - q.maxHistory) }

end DeleverageQueue

end Clearing

import Clearing.Deleverage.Execution
import Clearing.Run

/-!
Operations on a queue as data, and runs of them.

A queue is told which position gains and which one left, and it executes over whatever ledger it
is given.  An operation that is refused leaves the queue as it was, so a run goes on after it.
One that stops ends the run.
-/

namespace Clearing

namespace DeleverageQueue

/-- What can be done to a queue. -/
inductive Operation where
  | configure (market : MarketId) (terms : DeleverageTerms)
  | toggle (market : MarketId)
  | update (candidate : Candidate)
  | remove (lane : Lane) (id : PositionId)
  | execute (ledger : Ledger) (schedule : MarginSchedule) (shortfall : Shortfall) (now : Instant)
deriving DecidableEq

/-- What an operation answers when it is not refused. -/
inductive Reply where
  | configured (earlier : Option DeleverageTerms)
  | toggled (active : Bool)
  | updated
  /-- Whether there was anything to remove. -/
  | removed (present : Bool)
  | covered (coverage : Coverage) (ledger : Ledger)
deriving DecidableEq

/-- The reply to an operation and the queue after it. -/
def answer (q : DeleverageQueue) :
    Operation → Except (Failure DeleverageError) (Reply × DeleverageQueue)
  | .configure market terms => do
    let (earlier, next) ← refusing id (q.configure market terms)
    return (.configured earlier, next)
  | .toggle market => do
    let (active, next) ← refusing id (q.toggle market)
    return (.toggled active, next)
  | .update c => .ok (.updated, q.update c)
  | .remove lane id => .ok (.removed (q.contains lane id), q.remove lane id)
  | .execute ledger schedule shortfall now => do
    let (coverage, next, walked) ← q.execute ledger schedule shortfall now
    return (.covered coverage walked, next)

/-- Carries out an operation: the reply or the cause of a refusal, and the queue after it. -/
def perform (q : DeleverageQueue) (op : Operation) :
    Except Stop (Except DeleverageError Reply × DeleverageQueue) :=
  orStay q (q.answer op)

/-- The replies to a run of operations, and the queue after it. -/
def run : DeleverageQueue → List Operation →
    Except Stop (List (Except DeleverageError Reply) × DeleverageQueue) :=
  inTurn perform

end DeleverageQueue

end Clearing

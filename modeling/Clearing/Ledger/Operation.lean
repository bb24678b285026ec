import Clearing.Deleverage.Execution
import Clearing.Ledger.Mark
import Clearing.Run

/-!
Operations on a ledger as data, and runs of them.

`Operation` lists everything that changes a ledger.  Deleveraging is among them: it walks over
the candidates of whatever queue it is given.

An operation that is refused leaves the ledger as it was, so a run goes on after it.  One that
stops leaves no ledger to go on with, and ends the run.
-/

namespace Clearing

namespace Ledger

/-- What can be done to a ledger. -/
inductive Operation where
  | openPosition (order : Order) (schedule : MarginSchedule) (now : Instant)
  | modify (id : PositionId) (sizeDelta : Decimal) (collateralDelta : Amount) (price : Price)
      (schedule : MarginSchedule) (now : Instant)
  | close (id : PositionId) (price : Price) (now : Instant)
  | forceReduce (id : PositionId) (amount : Decimal) (price : Price) (schedule : MarginSchedule)
      (now : Instant)
  | refresh (id : PositionId) (mark : Price) (now : Instant)
  | refreshMarket (market : MarketId) (mark : Price) (now : Instant)
  | applyFunding (payments : List (PositionId × Amount)) (index : Decimal) (now : Instant)
  | deleverage (queue : DeleverageQueue) (schedule : MarginSchedule) (shortfall : Shortfall)
      (now : Instant)
deriving DecidableEq

/-- What an operation answers when it is not refused. -/
inductive Reply where
  | opened (id : PositionId)
  | modified (realized : Amount)
  | closed (closure : Closure)
  | reduced (reduction : Reduction)
  | refreshed (liquidatable : Bool)
  | marketRefreshed (liquidatable : List PositionId)
  | fundingApplied
  | covered (coverage : Coverage)
deriving DecidableEq

/-- Why an operation is refused. -/
inductive Refusal where
  | ledger (cause : LedgerError)
  | deleverage (cause : DeleverageError)
deriving DecidableEq

/-- The reply to an operation and the ledger after it. -/
def answer (l : Ledger) : Operation → Except (Failure Refusal) (Reply × Ledger)
  | .openPosition order schedule now => posting .opened (l.openPosition order schedule now)
  | .modify id sizeDelta collateralDelta price schedule now =>
    posting .modified (l.modify id sizeDelta collateralDelta price schedule now)
  | .close id price now => posting .closed (l.close id price now)
  | .forceReduce id amount price schedule now =>
    posting .reduced (l.forceReduce id amount price schedule now)
  | .refresh id mark now =>
    posting .refreshed (refusing (fun cause => cause) (l.refresh id mark now))
  | .refreshMarket market mark now =>
    posting .marketRefreshed (refusing (fun cause => cause) (l.refreshMarket market mark now))
  | .applyFunding payments index now => do
    let next ← refusing .ledger (l.applyFunding payments index now)
    return (.fundingApplied, next)
  | .deleverage queue schedule shortfall now => do
    let (coverage, _, next) ← inTermsOf .deleverage (queue.execute l schedule shortfall now)
    return (.covered coverage, next)
where
  /-- Words the result of an operation as a reply. -/
  posting {α : Type} (reply : α → Reply) (x : Attempt (Posted α)) :
      Except (Failure Refusal) (Reply × Ledger) :=
    inTermsOf .ledger (x.map fun posted => (reply posted.result, posted.ledger))

/-- Carries out an operation: the reply or the cause of a refusal, and the ledger after it. -/
def perform (l : Ledger) (op : Operation) : Except Stop (Except Refusal Reply × Ledger) :=
  orStay l (l.answer op)

/-- The replies to a run of operations, and the ledger after it. -/
def run : Ledger → List Operation → Except Stop (List (Except Refusal Reply) × Ledger) :=
  inTurn perform

/-- The numbers that a run handed out, in the order of the run. -/
def openedIn (replies : List (Except Refusal Reply)) : List PositionId :=
  replies.filterMap fun
    | .ok (.opened id) => some id
    | _ => none

end Ledger

end Clearing

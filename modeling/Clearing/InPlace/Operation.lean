import Clearing.InPlace.Deleverage
import Clearing.Ledger.Operation

/-!
Operations on a ledger as data, in place, and runs of them.

Whoever follows the ledger is told while an operation is under way.  Where nobody can be told yet,
the notices are put aside, and read later in the order in which they came.

An operation that is refused leaves the state as it is at that moment, and the run goes on from
there.  One that stops ends the run.
-/

namespace Clearing

/-- Tells an observer of everything that was put aside. -/
def Deferred.replayInto {ω : Type} [Observer ω] (d : Deferred) (observer : ω) : ω :=
  d.pending.foldl Observer.notify observer

/-- The ledger alone. -/
def Observed.ledgerPart {ω : Type} : Part (Observed ω) Ledger where
  get := (·.ledger)
  set s l := { s with ledger := l }
  get_set _ _ := rfl
  set_get _ := rfl

namespace Ledger

namespace InPlace

variable {ω : Type} [Observer ω]

/-- Covers a shortfall from a queue, of which only the ledger keeps anything. -/
def deleverage (queue : DeleverageQueue) (schedule : MarginSchedule) (shortfall : Shortfall)
    (now : Instant) : Edit Ledger DeleverageError Coverage := fun l =>
  match DeleverageQueue.InPlace.execute schedule shortfall now ⟨l, queue⟩ with
  | .ok coverage next => .ok coverage next.ledger
  | .error e left => .error e left.ledger

/-- Carries out an operation and words its result as a reply. -/
def answer : Operation → Edit (Observed ω) Refusal Reply
  | .openPosition order schedule now => posting .opened (openPosition order schedule now)
  | .modify id sizeDelta collateralDelta price schedule now =>
    posting .modified (modify id sizeDelta collateralDelta price schedule now)
  | .close id price now => posting .closed (close id price now)
  | .forceReduce id amount price schedule now =>
    posting .reduced (forceReduce id amount price schedule now)
  | .refresh id mark now => posting .refreshed (refresh id mark now)
  | .refreshMarket market mark now => posting .marketRefreshed (refreshMarket market mark now)
  | .applyFunding payments index now =>
    posting (fun _ => .fundingApplied) <|
      .within Observed.ledgerPart (applyFunding payments index now)
  | .deleverage queue schedule shortfall now =>
    .reworded .deleverage <|
      .covered <$> .within Observed.ledgerPart (deleverage queue schedule shortfall now)
where
  /-- Words the result of an operation as a reply. -/
  posting {α : Type} (reply : α → Reply) (x : Edit (Observed ω) LedgerError α) :
      Edit (Observed ω) Refusal Reply :=
    .reworded .ledger (reply <$> x)

/-- Carries out an operation: the reply or the cause of a refusal, and the state that is left. -/
def perform (op : Operation) (s : Observed ω) : Except Stop (Except Refusal Reply × Observed ω) :=
  (answer op).outcome s

/-- The replies to a run of operations, and the state after it. -/
def run (ops : List Operation) (s : Observed ω) :
    Except Stop (List (Except Refusal Reply) × Observed ω) :=
  inTurn (fun s op => perform op s) s ops

end InPlace

end Ledger

end Clearing

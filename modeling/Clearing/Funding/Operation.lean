import Clearing.Funding.Book
import Clearing.Run

/-!
Operations on a funding book as data, and runs of them.

A book is given terms, and it settles a market over whatever ledger it is given.  An operation that
is refused leaves the book as it was, so a run goes on after it.  One that stops ends the run.
-/

namespace Clearing

namespace FundingBook

/-- What can be done to a book, and when. -/
inductive Operation where
  | configure (market : MarketId) (terms : FundingTerms) (now : Instant)
  | settle (market : MarketId) (ledger : Ledger) (now : Instant)
deriving DecidableEq

/-- The time of an operation. -/
def Operation.now : Operation → Instant
  | configure _ _ now => now
  | settle _ _ now => now

/-- What an operation answers when it is not refused. -/
inductive Reply where
  | configured (earlier : Option FundingTerms)
  | settled (settlement : FundingSettlement) (ledger : Ledger)
deriving DecidableEq

/-- The reply to an operation and the book after it. -/
def answer (b : FundingBook) : Operation → Except (Failure FundingError) (Reply × FundingBook)
  | .configure market terms now => do
    let (earlier, next) ← refusing id (b.configure market terms now)
    return (.configured earlier, next)
  | .settle market ledger now => do
    let (settlement, next, booked) ← b.settle market ledger now
    return (.settled settlement booked, next)

/-- Carries out an operation: the reply or the cause of a refusal, and the book after it. -/
def perform (b : FundingBook) (op : Operation) :
    Except Stop (Except FundingError Reply × FundingBook) :=
  orStay b (b.answer op)

/-- The replies to a run of operations, and the book after it. -/
def run : FundingBook → List Operation →
    Except Stop (List (Except FundingError Reply) × FundingBook) :=
  inTurn perform

end FundingBook

end Clearing

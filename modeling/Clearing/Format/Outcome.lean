import Clearing.Deleverage.Execution
import Clearing.Format.Funding
import Clearing.Format.Position
import Clearing.House.Upkeep

/-!
How the outcomes of calls are written.

An outcome is told to the caller and kept nowhere, so it is written and never read back.
-/

namespace Clearing

/-- A closed position, the price it was closed at, and what came of it. -/
def Closure.toJson (c : Closure) : Json :=
  .ofFields [("position", .of c.position), ("exit_price", .of c.exitPrice),
    ("realized_pnl", .of c.realizedPnl)]

/-- A forced reduction. -/
def Reduction.toJson (r : Reduction) : Json :=
  .ofFields [("position_id", .of r.position), ("owner", .of r.owner), ("market_id", .of r.market),
    ("side", .of r.side), ("size_closed", .of r.sizeClosed), ("realized_pnl", .of r.realizedPnl),
    ("fully_closed", .of r.fullyClosed)]

/-- What was taken from a candidate. -/
def Deleveraged.toJson (d : Deleveraged) : Json :=
  .ofFields [("position_id", .of d.position), ("owner", .of d.owner), ("rank", .of d.rank),
    ("size_closed", .of d.sizeClosed), ("realized_pnl", .of d.realizedPnl),
    ("fully_closed", .of d.fullyClosed)]

/-- What an execution achieved. -/
def Coverage.toJson (c : Coverage) : Json :=
  .ofFields [("execution_id", .of c.execution), ("fully_covered", .of c.fullyCovered),
    ("total_closed", .of c.totalClosed),
    ("deleveraged", .array (c.deleveraged.map Deleveraged.toJson))]

/-- What the queue is told of a position. -/
def Notice.toJson : Notice → Json
  | .gaining c =>
    .ofFields [("updated", .ofFields [("market_id", .of c.market), ("position_id", .of c.position),
      ("owner", .of c.owner), ("side", .of c.side), ("unrealized_pnl", .of c.unrealizedPnl),
      ("leverage", .of c.leverage), ("score", .of c.score), ("timestamp", .of c.updatedAt)])]
  | .left market position side =>
    .ofFields [("removed", .ofFields [("market_id", .of market), ("position_id", .of position),
      ("side", .of side)])]

/-- The payments of a plan, and what they come to. -/
def FundingPlan.toJson (p : FundingPlan) : Json :=
  .ofFields [("payments", .of p.payments), ("total_paid", .of p.totalPaid)]

/-- What marking a market found. -/
def Refresh.toJson (r : Refresh) : Json :=
  .ofFields [("market_id", .of r.market), ("refreshed", .of r.refreshed),
    ("liquidatable", .of r.liquidatable)]

end Clearing

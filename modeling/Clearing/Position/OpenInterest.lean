import Clearing.Decimal.Checked
import Clearing.Identifier

/-!
How much is open on each side of a market.
-/

namespace Clearing

/-- The sum of the sizes on each side. -/
structure OpenInterest where
  long : Decimal
  short : Decimal
deriving DecidableEq

namespace OpenInterest

/-- Nothing is open. -/
def none : OpenInterest := ⟨.zero, .zero⟩

/-- What is open on one side. -/
def onSide (oi : OpenInterest) : Side → Decimal
  | .long => oi.long
  | .short => oi.short

/-- What is open on both sides together, unchecked. -/
def total {ε : Type} (oi : OpenInterest) : Except (Failure ε) Decimal :=
  oi.long.addOrStop oi.short

/-- Changes one side by a signed amount, which must not take it below zero. -/
def change (oi : OpenInterest) (side : Side) (delta : Decimal) :
    Except ArithmeticError OpenInterest := do
  let next ← (oi.onSide side).add delta "open interest"
  if next.negative && !next.isZero then throw (.overflow "open interest underflow")
  match side with
  | .long => return { oi with long := next }
  | .short => return { oi with short := next }

end OpenInterest

end Clearing

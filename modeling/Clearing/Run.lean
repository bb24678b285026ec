import Clearing.Failure

/-!
Steps that can be refused, and runs of them.

A step is answered, or it is refused and leaves the state as it was, so a run goes on after a
refusal.  A step that stops leaves no state to go on with, and ends the run.
-/

namespace Clearing

variable {σ ο ε ρ α : Type}

/-- What a step from a state comes to: the reply or the cause of a refusal, and the state after
it. -/
def orStay (s : σ) : Except (Failure ε) (ρ × σ) → Except Stop (Except ε ρ × σ)
  | .ok (reply, next) => .ok (.ok reply, next)
  | .error (.refused cause) => .ok (.error cause, s)
  | .error (.stopped at_) => .error at_

/-- The results of steps taken one after the other, and the state after them. -/
def inTurn (step : σ → ο → Except Stop (α × σ)) : σ → List ο → Except Stop (List α × σ)
  | s, [] => .ok ([], s)
  | s, op :: ops => do
    let (result, next) ← step s op
    let (results, last) ← inTurn step next ops
    return (result :: results, last)

end Clearing

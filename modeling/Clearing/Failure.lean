/-!
How a call can fail.

Most calls refuse what they cannot do and name the cause.  Some sums are formed without a check,
because their operands are expected to keep them small; where one overflows nonetheless there is
no cause to name, and the whole run stops.  `Failure` tells the two apart, so that "never stops"
can be said of a call.
-/

namespace Clearing

/-- An unchecked operation that overflowed. -/
inductive Stop where
  | addition
  | subtraction
deriving DecidableEq

/-- What a stopped run reports. -/
def Stop.message : Stop → String
  | addition => "Addition overflowed"
  | subtraction => "Subtraction overflowed"

/-- A call is refused for a cause, or stops at an unchecked operation. -/
inductive Failure (ε : Type) where
  | refused (cause : ε)
  | stopped (at_ : Stop)
deriving DecidableEq

/-- Changes the cause. -/
def Failure.map {ε δ : Type} (f : ε → δ) : Failure ε → Failure δ
  | refused cause => refused (f cause)
  | stopped s => stopped s

variable {ε δ α : Type}

/-- A call that can only be refused, within one that can also stop. -/
def refusing (f : ε → δ) (x : Except ε α) : Except (Failure δ) α :=
  x.mapError fun cause => .refused (f cause)

/-- A call that can stop, with its cause told in the terms of the caller. -/
def inTermsOf (f : ε → δ) (x : Except (Failure ε) α) : Except (Failure δ) α :=
  x.mapError (Failure.map f)

/-- Refuses for a cause. -/
def refuse (cause : ε) : Except (Failure ε) α :=
  .error (.refused cause)

end Clearing

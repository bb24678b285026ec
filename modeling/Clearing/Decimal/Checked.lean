import Clearing.Decimal.Arithmetic
import Clearing.Failure

/-!
Arithmetic that says what it was computing when it failed.

Each operation names the quantity it computes.  A result out of range is an overflow in that
quantity, never a saturated number.  The two unchecked operations stop the run instead.
-/

namespace Clearing

/-- Why a quantity could not be computed. -/
inductive ArithmeticError where
  | overflow (quantity : String)
  | divisionByZero (quantity : String)
deriving DecidableEq

/-- The error in words. -/
def ArithmeticError.message : ArithmeticError → String
  | overflow quantity => s!"Arithmetic overflow in {quantity}"
  | divisionByZero quantity => s!"Division by zero in {quantity}"

namespace Decimal

/-- The result of an operation, or an overflow in the quantity. -/
def orOverflow (quantity : String) : Option Decimal → Except ArithmeticError Decimal
  | some d => .ok d
  | none => .error (.overflow quantity)

/-- The sum. -/
def add (a b : Decimal) (quantity : String) : Except ArithmeticError Decimal :=
  orOverflow quantity (a.add? b)

/-- The difference. -/
def sub (a b : Decimal) (quantity : String) : Except ArithmeticError Decimal :=
  orOverflow quantity (a.sub? b)

/-- The product. -/
def mul (a b : Decimal) (quantity : String) : Except ArithmeticError Decimal :=
  orOverflow quantity (a.mul? b)

/-- The quotient; dividing by zero is an error of its own. -/
def div (a b : Decimal) (quantity : String) : Except ArithmeticError Decimal :=
  if b.isZero then .error (.divisionByZero quantity) else orOverflow quantity (a.quotient? b)

/-- The quotient of a divisor that may be zero, without a reason where there is none. -/
def div? (a b : Decimal) : Option Decimal :=
  if b.isZero then none else a.quotient? b

/-- The sum, unchecked. -/
def addOrStop {ε : Type} (a b : Decimal) : Except (Failure ε) Decimal :=
  match a.add? b with
  | some d => .ok d
  | none => .error (.stopped .addition)

/-- The difference, unchecked. -/
def subOrStop {ε : Type} (a b : Decimal) : Except (Failure ε) Decimal :=
  match a.sub? b with
  | some d => .ok d
  | none => .error (.stopped .subtraction)

/-- The sum of a list, from the left, unchecked. -/
def sumOrStop {ε : Type} (ds : List Decimal) : Except (Failure ε) Decimal :=
  ds.foldlM addOrStop zero

end Decimal

end Clearing

import Clearing.Decimal.Text
import Clearing.Double.Basic

/-!
The shortest decimal that stands for a binary floating-point number.

A number stands for all reals that round to it: from half way to its neighbour below to half way
to its neighbour above, both ends included where its significand is even.  Of the decimals in
that range the text takes those with the fewest digits, and of these the nearest to the number,
the larger of two that are equally near.  It is written without an exponent.

The grid `p` holds the multiples of `10 ^ (p - 324)`.  If any of them is in the range, then so is
one of the two around the number; so the coarsest grid that has one is found by trying those two
on each grid, downwards.  Grid 0 is finer than the distance between any two numbers and always
has one.
-/

namespace Clearing

namespace Double

open Decimal (tenPow)

/-- Where the range of a number begins, in quarters of a step.  Just above a power of two, the
neighbour below is half as far as the one above. -/
def low (x : Double) : Nat :=
  let reach := if x.significand = 4503599627370496 ∧ x.shift ≠ 0 then 1 else 2
  (4 * x.significand - reach) * twoPow x.shift

/-- Where the range of a number ends, in quarters of a step. -/
def high (x : Double) : Nat :=
  (4 * x.significand + 2) * twoPow x.shift

/-- Whether `c` on grid `p` is in the range of a number. -/
def standsFor (c p : Nat) (x : Double) : Bool :=
  let point := c * tenPow p * twoPow 1076
  let low := x.low * tenPow 324
  let high := x.high * tenPow 324
  if x.significand % 2 = 0 then decide (low ≤ point ∧ point ≤ high)
  else decide (low < point ∧ point < high)

/-- Which of the two points around a number on grid `p` is in its range: the nearer if both are,
the upper if they are equally near. -/
def pointOn? (x : Double) (p : Nat) : Option Nat :=
  let value := 4 * x.steps * tenPow 324
  let cell := tenPow p * twoPow 1076
  let c := value / cell
  if standsFor c p x && (!standsFor (c + 1) p x || decide (2 * value < (2 * c + 1) * cell)) then
    some c
  else if standsFor (c + 1) p x then some (c + 1)
  else none

/-- The point on the coarsest grid up to `p` that has one in the range, and that grid. -/
def shortestFrom (x : Double) : Nat → Nat × Nat
  | 0 => ((x.pointOn? 0).getD 0, 0)
  | p + 1 =>
    match x.pointOn? (p + 1) with
    | some c => (c, p + 1)
    | none => shortestFrom x p

/-- The coarsest grid worth trying: that of the largest power of ten. -/
abbrev coarsestGrid : Nat := 632

/-- The characters of the shortest decimal. -/
def chars (x : Double) : List Char :=
  if x.isZero then ['0']
  else
    let (c, p) := shortestFrom x coarsestGrid
    Decimal.pointed (c * tenPow (p - 324)) (324 - p)

end Double

end Clearing

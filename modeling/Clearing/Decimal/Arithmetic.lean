import Clearing.Decimal.Basic

/-!
Sums, products and quotients of decimals.

A result that is too long is rounded, half to even, to the most digits that fit; one whose whole
part does not fit is `none`.  Sums and products are computed exactly first and then fitted, so
each of them rounds once.  A quotient is a long division: digits are appended, up to nine at a
time, until nothing remains or no further digit fits, and then some trailing zeros are taken
away again.  How many is visible, since the scale is part of a decimal: `1 / 2` is `0.50`.
-/

namespace Clearing

namespace Decimal

/-- The quotient rounded to the nearest whole number, a half going to the even neighbour. -/
def roundHalfEven (num den : Nat) : Nat :=
  let q := num / den
  let r := num % den
  if den < 2 * r ∨ 2 * r = den ∧ q % 2 = 1 then q + 1 else q

/-- A rounded quotient is never below the quotient that is cut off. -/
theorem div_le_roundHalfEven (num den : Nat) : num / den ≤ roundHalfEven num den := by
  unfold roundHalfEven
  dsimp only
  split
  · exact Nat.le_succ _
  · exact Nat.le_refl _

/-- The fewest of `scale` decimals that must go for `coeff` to fit both bounds, if any number
does. -/
def leastDrop (coeff scale : Nat) : Option Nat :=
  (List.range' (scale - maxScale) (scale + 1 - (scale - maxScale))).find?
    fun k => coeff / tenPow k < coeffBound

/--
The decimal nearest to `± coeff / 10 ^ scale` with the most decimals that fit, or `none` where
the whole part is too large.  Rounding up may carry into one digit more than there is room for;
then the last decimal goes as well.
-/
def fit (negative : Bool) (coeff scale : Nat) : Option Decimal :=
  match leastDrop coeff scale with
  | none => none
  | some k =>
    let rounded := roundHalfEven coeff (tenPow k)
    if rounded < coeffBound then ofParts? negative rounded (scale - k)
    else if scale = k then none
    else ofParts? negative (roundHalfEven coeffBound 10) (scale - k - 1)

/-- The sum.  A zero adds nothing, not even decimals: the other operand is the answer as it is. -/
def add? (a b : Decimal) : Option Decimal :=
  if a.isZero then some b
  else if b.isZero then some a
  else
    let scale := Nat.max a.scale b.scale
    let sum := a.scaledTo scale + b.scaledTo scale
    fit (decide (sum < 0)) sum.natAbs scale

/-- The difference, which is the sum with `b` turned around; a zero `b` is used as it is. -/
def sub? (a b : Decimal) : Option Decimal :=
  if b.isZero then a.add? b else a.add? (-b)

/-- Whether the coefficient fits 32 bits. -/
def isShort (d : Decimal) : Bool :=
  d.coeff < 4294967296

/--
The product.  Two short coefficients with more than 47 decimals between them make zero, and two
short ones whose product rounds to zero make a zero without a sign.
-/
def mul? (a b : Decimal) : Option Decimal :=
  if a.isZero || b.isZero then some zero
  else
    let short := a.isShort && b.isShort
    if short && decide (47 < a.scale + b.scale) then some zero
    else
      (fit (a.negative != b.negative) (a.coeff * b.coeff) (a.scale + b.scale)).map fun d =>
        if short && d.isZero then d.abs else d

/-! ### Division -/

/-- The most of `limit` digits that can be appended to `quot` while it stays within the bound. -/
def room (quot : Nat) : (limit : Nat) → Nat
  | 0 => 0
  | n + 1 => if quot * tenPow (n + 1) < coeffBound then n + 1 else room quot n

/-- Where a long division ends: the digits, their scale, and whether it ever left a remainder. -/
structure Quotient where
  digits : Nat
  scale : Nat
  inexact : Bool
deriving DecidableEq

/-- A rounding that carries past the bound gives up one decimal, where there is one. -/
def Quotient.ofCarried (digits : Nat) (scale : Int) : Option Quotient :=
  if digits < coeffBound then some ⟨digits, scale.toNat, true⟩
  else if scale - 1 < 0 then none
  else some ⟨roundHalfEven coeffBound 10, (scale - 1).toNat, true⟩

/--
Long division by `den`.  So far the quotient has `digits` with `scale` decimals, and `rest` is
the remainder.  Each turn appends up to nine digits.  It ends when nothing remains and the scale
is not negative, when no further digit fits, or when the digits just appended ran past the bound
and the last of them is rounded away.  Every turn raises the scale, which cannot pass 28, and
`turns` bounds their number.
-/
def divide (den : Nat) :
    (turns digits : Nat) → (scale : Int) → (rest : Nat) → (inexact : Bool) → Option Quotient
  | 0, _, _, _, _ => none
  | turns + 1, digits, scale, rest, inexact =>
    if rest = 0 ∧ 0 ≤ scale then some ⟨digits, scale.toNat, inexact⟩
    else
      let count :=
        if rest = 0 then Nat.min 9 (-scale).toNat
        else room digits (Nat.min 9 ((maxScale : Int) - scale).toNat)
      if rest ≠ 0 ∧ scale < maxScale ∧ count < 9 ∧ count + scale < 0 then none
      else if rest ≠ 0 ∧ count = 0 then
        let up := decide (den < 2 * rest) || decide (2 * rest = den ∧ digits % 2 = 1)
        Quotient.ofCarried (if up then digits + 1 else digits) scale
      else
        let shifted := digits * tenPow count
        let scale := scale + count
        if coeffBound ≤ shifted then none
        else
          let next := shifted + rest * tenPow count / den
          let left := rest * tenPow count % den
          if next < coeffBound then
            divide den turns next scale left (inexact || decide (rest ≠ 0))
          else if scale - 1 < 0 then none
          else
            let last := next % 10
            let up := decide (5 < last) || decide (last = 5 ∧ (left ≠ 0 ∨ next / 10 % 2 = 1))
            some ⟨if up then next / 10 + 1 else next / 10, (scale - 1).toNat, true⟩

/-- Takes `count` trailing zeros away, if there are so many and `test` allows the attempt. -/
def Quotient.strip (count : Nat) (test : Nat → Bool) (q : Quotient) : Quotient :=
  if test q.digits && decide (count ≤ q.scale) && decide (q.digits % tenPow count = 0) then
    { q with digits := q.digits / tenPow count, scale := q.scale - count }
  else q

/--
The form a quotient is given in.  An exact division is left alone.  Otherwise trailing zeros go
eight at a time (a scale of at most 28 leaves room for three rounds), then four, two and one at
once.  A power of ten is tried only where the digits are divisible by a power of two, so that
not every zero is found.
-/
def Quotient.stripped (q : Quotient) : Quotient :=
  if q.inexact then
    let eight := strip 8 fun n => n % 4294967296 == 0
    (eight (eight (eight q))) |>.strip 4 (fun n => n % 16 == 0)
      |>.strip 2 (fun n => n % 4 == 0) |>.strip 1 (fun n => n % 2 == 0)
  else q

/-- The quotient, for `b` other than zero. -/
def quotient? (a b : Decimal) : Option Decimal :=
  if a.isZero then some zero
  else do
    let q ← divide b.coeff 58 (a.coeff / b.coeff) ((a.scale : Int) - b.scale)
      (a.coeff % b.coeff) false
    let q := q.stripped
    ofParts? ((a.negative != b.negative) && q.digits != 0) q.digits q.scale

end Decimal

end Clearing

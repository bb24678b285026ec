import Clearing.Decimal.Arithmetic

/-!
Binary floating-point numbers of double width.

A `Double` is `significand · 2 ^ shift` steps, where a step is `2 ^ -1074`, the least distance
between two of them.  The significand has at most 53 bits, and exactly 53 where it is shifted, so
each number is written in one way only.  There is no sign here, and no largest number either:
`isFinite` tells the numbers that the format has room for.

Every operation works out an exact fraction of steps and rounds it once, by `nearest`.
-/

namespace Clearing

/-- What a binary digit is worth that has `k` digits to its right. -/
abbrev twoPow (k : Nat) : Nat := Nat.pow 2 k

/-- A binary floating-point number without sign: `significand · 2 ^ shift` steps. -/
structure Double where
  significand : Nat
  shift : Nat
  significand_lt : significand < 9007199254740992
  normal : shift = 0 ∨ 4503599627370496 ≤ significand
deriving DecidableEq

namespace Double

open Decimal (tenPow roundHalfEven div_le_roundHalfEven)

/-- A number of more than 53 bits keeps its first 53 when it is cut to the size of a
significand. -/
theorem le_div_twoPow_log2 {n : Nat} (h : n.log2 - 52 ≠ 0) :
    4503599627370496 ≤ n / twoPow (n.log2 - 52) := by
  have hn : n ≠ 0 := by
    rintro rfl
    exact h (by decide)
  have hsplit : 4503599627370496 * 2 ^ (n.log2 - 52) = 2 ^ n.log2 := by
    rw [show (4503599627370496 : Nat) = 2 ^ 52 from rfl, ← Nat.pow_add]
    congr 1
    omega
  refine (Nat.le_div_iff_mul_le (Nat.pow_pos (by decide))).2 ?_
  exact Nat.le_trans (Nat.le_of_eq hsplit) (Nat.log2_self_le hn)

/-- The number nearest to `num / den` steps, a half going to the even significand. -/
def nearest (num den : Nat) : Double :=
  let shift := (num / den).log2 - 52
  let rounded := roundHalfEven num (den * twoPow shift)
  if h : rounded < 9007199254740992 then
    ⟨rounded, shift, h, by
      rcases Nat.eq_zero_or_pos shift with hs | hs
      · exact Or.inl hs
      · refine Or.inr (Nat.le_trans (le_div_twoPow_log2 (Nat.ne_of_gt hs)) ?_)
        rw [Nat.div_div_eq_div_mul]
        exact div_le_roundHalfEven _ _⟩
  else ⟨4503599627370496, shift + 1, by decide, Or.inr (Nat.le_refl _)⟩

/-- How many steps the number is. -/
def steps (x : Double) : Nat :=
  x.significand * twoPow x.shift

/-- Whether the number is zero. -/
def isZero (x : Double) : Bool :=
  x.significand == 0

/-- Whether the number is small enough for the format. -/
def isFinite (x : Double) : Bool :=
  x.shift ≤ 2045

/-- The number nearest to a whole number. -/
def ofNat (n : Nat) : Double :=
  nearest (n * twoPow 1074) 1

/-- The number nearest to a power of ten. -/
def powerOfTen (k : Nat) : Double :=
  ofNat (tenPow k)

/-- The product. -/
def mul (x y : Double) : Double :=
  nearest (x.steps * y.steps) (twoPow 1074)

/-- The quotient. -/
def div (x y : Double) : Double :=
  nearest (x.steps * twoPow 1074) y.steps

/-- The largest power of ten that the format has room for has this many zeros. -/
abbrev maxZeros : Nat := 308

/-- The number times a power of ten, if the format has room for both. -/
def timesPowerOfTen? (x : Double) (k : Nat) : Option Double :=
  if k ≤ maxZeros then
    let product := x.mul (powerOfTen k)
    if product.isFinite then some product else none
  else if x.isZero then some x
  else none

/-- The number over a power of ten.  A power that the format has no room for is divided by in
parts, each quotient rounded. -/
def overPowerOfTen (x : Double) (k : Nat) : Double :=
  if k ≤ maxZeros then x.div (powerOfTen k)
  else if x.isZero then x
  else overPowerOfTen (x.div (powerOfTen maxZeros)) (k - maxZeros)
termination_by k
decreasing_by
  have hk : 308 < k := Nat.lt_of_not_le ‹¬k ≤ maxZeros›
  exact Nat.sub_lt (by omega) (by decide)

end Double

end Clearing

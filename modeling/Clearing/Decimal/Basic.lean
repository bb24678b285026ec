/-!
Decimal numbers of bounded size.

A `Decimal` is a sign, a coefficient below 2^96 and a scale of at most 28: it stands for
`± coeff / 10 ^ scale`.  The bounds are fields of the type, so no operation can build a number
outside them; the operations of `Clearing.Decimal.Arithmetic` answer `none` instead.

The scale belongs to the value, because it is the number of decimals the value is written with:
`1.5` and `1.50` are different decimals.  Order does not look at it.  Two decimals are compared
as fractions, by cross-multiplying with each other's power of ten, so `1.5 < 1.50` fails and
`1.5 ≤ 1.50` and `1.50 ≤ 1.5` both hold.  A zero may carry a minus sign, which shows when the
number is written and in no comparison.
-/

namespace Clearing

/-- Sign, coefficient and scale: `± coeff / 10 ^ scale`. -/
@[ext]
structure Decimal where
  /-- Whether the number is written with a minus sign. -/
  negative : Bool
  /-- The digits, read as one integer. -/
  coeff : Nat
  /-- How many of the digits stand behind the point. -/
  scale : Nat
  coeff_lt : coeff < 79228162514264337593543950336
  scale_le : scale ≤ 28
deriving DecidableEq

namespace Decimal

/-- Coefficients stay below this bound, which is 2^96. -/
abbrev coeffBound : Nat := 79228162514264337593543950336

/-- The most digits that may stand behind the point. -/
abbrev maxScale : Nat := 28

/-- What a digit is worth that has `k` digits to its right. -/
abbrev tenPow (k : Nat) : Nat := Nat.pow 10 k

/-- The decimal with these parts, if they are within the bounds. -/
def ofParts? (negative : Bool) (coeff scale : Nat) : Option Decimal :=
  if h : coeff < coeffBound ∧ scale ≤ maxScale then
    some ⟨negative, coeff, scale, h.1, h.2⟩
  else none

theorem ofParts?_of_le {negative : Bool} {coeff scale : Nat}
    (hc : coeff < coeffBound) (hs : scale ≤ maxScale) :
    ofParts? negative coeff scale = some ⟨negative, coeff, scale, hc, hs⟩ :=
  dif_pos ⟨hc, hs⟩

theorem ofParts?_eq_some_iff {negative : Bool} {coeff scale : Nat} {d : Decimal} :
    ofParts? negative coeff scale = some d ↔
      d.negative = negative ∧ d.coeff = coeff ∧ d.scale = scale := by
  unfold ofParts?
  constructor
  · intro h
    split at h
    · cases h
      exact ⟨rfl, rfl, rfl⟩
    · cases h
  · rintro ⟨rfl, rfl, rfl⟩
    rw [dif_pos ⟨d.coeff_lt, d.scale_le⟩]

/-- Zero, without decimals. -/
def zero : Decimal := ⟨false, 0, 0, by decide, by decide⟩

/-- One, without decimals. -/
def one : Decimal := ⟨false, 1, 0, by decide, by decide⟩

/-- The largest decimal. -/
def greatest : Decimal := ⟨false, 79228162514264337593543950335, 0, by decide, by decide⟩

/-- A 32-bit count as a decimal without decimals. -/
def ofUInt32 (n : UInt32) : Decimal :=
  ⟨false, n.toNat, 0, by have := n.toNat_lt; omega, by decide⟩

/-- A 64-bit count as a decimal without decimals. -/
def ofUInt64 (n : UInt64) : Decimal :=
  ⟨false, n.toNat, 0, by have := n.toNat_lt; omega, by decide⟩

/-- A signed 32-bit count as a decimal without decimals. -/
def ofInt32 (n : Int32) : Decimal :=
  ⟨decide (n.toInt < 0), n.toInt.natAbs, 0,
    by have := n.toInt_lt; have := n.le_toInt; omega, by decide⟩

/-- The coefficient with its sign. -/
def signedCoeff (d : Decimal) : Int :=
  if d.negative then -(d.coeff : Int) else (d.coeff : Int)

/-- The coefficient with its sign, written to `scale` decimals; exact when `d.scale ≤ scale`. -/
def scaledTo (d : Decimal) (scale : Nat) : Int :=
  d.signedCoeff * tenPow (scale - d.scale)

/-- Whether the number is zero, whatever its sign and scale. -/
def isZero (d : Decimal) : Bool :=
  d.coeff == 0

/-! ### Order -/

instance : LT Decimal :=
  ⟨fun a b => a.signedCoeff * tenPow b.scale < b.signedCoeff * tenPow a.scale⟩

instance : LE Decimal :=
  ⟨fun a b => a.signedCoeff * tenPow b.scale ≤ b.signedCoeff * tenPow a.scale⟩

instance (a b : Decimal) : Decidable (a < b) :=
  inferInstanceAs (Decidable (_ < (_ : Int)))

instance (a b : Decimal) : Decidable (a ≤ b) :=
  inferInstanceAs (Decidable (_ ≤ (_ : Int)))

/-- The order of the two numbers; `.eq` says they are equal as fractions. -/
def cmp (a b : Decimal) : Ordering :=
  if a < b then .lt else if b < a then .gt else .eq

/-- The larger of two numbers, the first where they are equal. -/
def max (a b : Decimal) : Decimal :=
  if a < b then b else a

/-- The smaller of two numbers, the first where they are equal. -/
def min (a b : Decimal) : Decimal :=
  if b < a then b else a

/-! ### Sign and whole part -/

/-- Turns the sign around, also that of a zero. -/
def neg (d : Decimal) : Decimal :=
  { d with negative := !d.negative }

instance : Neg Decimal := ⟨neg⟩

/-- The number without its sign. -/
def abs (d : Decimal) : Decimal :=
  { d with negative := false }

/-- The number with its decimals cut off, toward zero. -/
def trunc (d : Decimal) : Decimal :=
  ⟨d.negative, d.coeff / tenPow d.scale, 0,
    Nat.lt_of_le_of_lt (Nat.div_le_self _ _) d.coeff_lt, by decide⟩

/-- The whole part as an integer. -/
def truncToInt (d : Decimal) : Int :=
  d.trunc.signedCoeff

end Decimal

end Clearing

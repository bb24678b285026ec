import Clearing.Decimal.Basic

/-!
The units that amounts are measured in: prices and amounts in quote currency, leverage as a whole
multiplier, and rates in basis points.
-/

namespace Clearing

/-- Quote currency per unit of base. -/
abbrev Price := Decimal

/-- An amount of quote currency: collateral, margin, profit, funding. -/
abbrev Amount := Decimal

/-- Admits the prices that can be traded at, which are above zero. -/
def Price.ofPositive? (value : Decimal) : Option Price :=
  if Decimal.zero < value then some value else none

/-- The smallest price that a liquidation price can come down to, with 18 decimals. -/
def Price.epsilon : Price := { Decimal.one with scale := 18, scale_le := by decide }

/-- A whole multiplier of collateral. -/
structure Leverage where
  val : UInt32
deriving DecidableEq

namespace Leverage

/-- Admits a multiplier of at least one. -/
def ofPositive? (val : UInt32) : Option Leverage :=
  if 1 ≤ val then some ⟨val⟩ else none

instance : LE Leverage := ⟨fun a b => a.val ≤ b.val⟩

instance (a b : Leverage) : Decidable (a ≤ b) :=
  inferInstanceAs (Decidable (a.val ≤ b.val))

/-- The multiplier as a decimal. -/
def toDecimal (l : Leverage) : Decimal :=
  Decimal.ofUInt32 l.val

/-- The multiplier as it appears in messages. -/
def text (l : Leverage) : String :=
  s!"{l.val}x"

end Leverage

/-- A rate in hundredths of a percent; negative rates occur in funding. -/
@[ext]
structure Bps where
  val : Int32
deriving DecidableEq

namespace Bps

/-- The rate zero. -/
def zero : Bps := ⟨0⟩

/-- The rate as an integer. -/
def toInt (b : Bps) : Int :=
  b.val.toInt

/-- The number of basis points as a decimal. -/
def toDecimal (b : Bps) : Decimal :=
  Decimal.ofInt32 b.val

/-- The rate as a fraction of one, with four decimals. -/
def toFraction (b : Bps) : Decimal :=
  { Decimal.ofInt32 b.val with scale := 4, scale_le := by decide }

/-- How many basis points make the whole. -/
def whole : Decimal := Decimal.ofUInt32 10000

/-- The rate as it appears in messages. -/
def text (b : Bps) : String :=
  s!"{b.toInt}bps"

end Bps

end Clearing

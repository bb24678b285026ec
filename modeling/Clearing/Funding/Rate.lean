import Clearing.Measure
import Clearing.Position.OpenInterest

/-!
What funding costs.

The heavier side of open interest pays the lighter one.  The rate is the share of the imbalance
in all open interest, times the maximum rate, cut to whole basis points; a positive rate is paid
by the long side.
-/

namespace Clearing

/-- A decimal without decimals as a rate, where it fits. -/
def Bps.ofTruncated? (d : Decimal) : Option Bps :=
  let n := d.truncToInt
  if -2147483648 ≤ n ∧ n ≤ 2147483647 then some ⟨Int32.ofInt n⟩ else none

/-- Brings a decimal between a bound and its negative. -/
def Decimal.clamp (d bound : Decimal) : Decimal :=
  (d.max (-bound)).min bound

/-- The rate for one period, positive where the long side pays. -/
def fundingRate (oi : OpenInterest) (maxRate : Bps) : Except (Failure ArithmeticError) Bps := do
  let total ← refusing id (oi.long.add oi.short "funding total oi")
  if total.isZero then return .zero
  let skew ← oi.long.subOrStop oi.short
  let imbalance ← refusing id (skew.div total "funding imbalance")
  let raw ← refusing id (imbalance.mul maxRate.toDecimal "funding rate")
  match Bps.ofTruncated? (raw.clamp maxRate.toDecimal) with
  | some rate => return rate
  | none => refuse (.overflow "funding rate")

/-- What a position of this size owes for a number of periods, whichever way the rate points. -/
def fundingOwed (size : Decimal) (rate : Bps) (periods : UInt64) :
    Except ArithmeticError Amount := do
  let perPeriod ← size.mul rate.toDecimal.abs "funding payment"
  let total ← perPeriod.mul (Decimal.ofUInt64 periods) "funding payment"
  total.div Bps.whole "funding payment"

end Clearing

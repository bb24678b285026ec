import Clearing.Decimal.Arithmetic
import Mathlib.Tactic.Ring

/-!
Decimals counted in units of their last possible place.

No decimal has more than 28 decimals, so each is a whole number of units of 10^-28.  Counting in
these units turns questions about decimals of different scales into questions about integers:
order is the order of the counts (`lt_iff_units`, `le_iff_units`), and sums of counts are exact
where sums of decimals round.
-/

namespace Clearing

namespace Decimal

/-! ### Powers of ten -/

theorem tenPow_pos (k : Nat) : 0 < tenPow k :=
  Nat.pow_pos (by decide)

theorem tenPow_zero : tenPow 0 = 1 := rfl

theorem tenPow_add (j k : Nat) : tenPow (j + k) = tenPow j * tenPow k :=
  Nat.pow_add 10 j k

theorem tenPow_sub_mul {j k : Nat} (h : j ≤ k) : tenPow (k - j) * tenPow j = tenPow k := by
  rw [← tenPow_add, Nat.sub_add_cancel h]

theorem tenPow_mono {j k : Nat} (h : j ≤ k) : tenPow j ≤ tenPow k :=
  Nat.pow_le_pow_right (by decide) h

/-! ### Counting in units -/

/-- The number in units of the last place that a decimal can have, 10^-28. -/
def units (d : Decimal) : Int :=
  d.scaledTo maxScale

@[simp] theorem units_zero : zero.units = 0 := rfl

theorem signedCoeff_neg (d : Decimal) : (-d).signedCoeff = -d.signedCoeff := by
  show signedCoeff (neg d) = -d.signedCoeff
  unfold signedCoeff neg
  cases d.negative <;> simp

@[simp] theorem units_neg (d : Decimal) : (-d).units = -d.units := by
  have hscale : (-d).scale = d.scale := rfl
  unfold units scaledTo
  rw [signedCoeff_neg, hscale, Int.neg_mul]

/-- Writing a number out to any scale it fits in does not change its count. -/
theorem scaledTo_mul_tenPow {d : Decimal} {scale : Nat} (hd : d.scale ≤ scale)
    (hs : scale ≤ maxScale) : d.scaledTo scale * tenPow (maxScale - scale) = d.units := by
  have hsplit : tenPow (maxScale - d.scale)
      = tenPow (scale - d.scale) * tenPow (maxScale - scale) := by
    rw [← tenPow_add]
    congr 1
    omega
  unfold units scaledTo
  rw [hsplit]
  push_cast
  ring

/-- A count with a sign. -/
def signed (negative : Bool) (n : Nat) : Int :=
  if negative then -(n : Int) else (n : Int)

@[simp] theorem natAbs_signed (negative : Bool) (n : Nat) : (signed negative n).natAbs = n := by
  unfold signed
  split
  · rw [Int.natAbs_neg, Int.natAbs_natCast]
  · rw [Int.natAbs_natCast]

theorem signed_mul (negative : Bool) (m n : Nat) :
    signed negative (m * n) = signed negative m * n := by
  cases negative <;> simp [signed]

theorem units_eq (d : Decimal) :
    d.units = signed d.negative (d.coeff * tenPow (maxScale - d.scale)) := by
  unfold units scaledTo signedCoeff signed
  split <;> push_cast <;> ring

theorem natAbs_units (d : Decimal) :
    d.units.natAbs = d.coeff * tenPow (maxScale - d.scale) := by
  rw [units_eq, natAbs_signed]

theorem units_eq_zero_iff {d : Decimal} : d.units = 0 ↔ d.isZero = true := by
  rw [← Int.natAbs_eq_zero, natAbs_units, Nat.mul_eq_zero,
    or_iff_left (Nat.ne_of_gt (tenPow_pos _))]
  simp [isZero]

/-- The sign says which way a number counts, unless it is zero. -/
theorem units_neg_iff {d : Decimal} : d.units < 0 ↔ d.negative = true ∧ d.isZero = false := by
  have hzero := units_eq_zero_iff (d := d)
  have habs := units_eq d
  cases hneg : d.negative with
  | false =>
    simp only [hneg, signed, Bool.false_eq_true, if_false] at habs
    simp only [Bool.false_eq_true, false_and, iff_false]
    omega
  | true =>
    simp only [hneg, signed, if_true] at habs
    cases hz : d.isZero with
    | true => simp [hzero.2 hz]
    | false =>
      have hne : d.units ≠ 0 := fun h => by simp [hzero.1 h] at hz
      exact iff_of_true (by omega) ⟨rfl, rfl⟩

/-! ### Order -/

/-- Both sides of the comparison of `a` with `b` are the counts times the same power of ten. -/
theorem cross_mul_eq (a b : Decimal) :
    a.signedCoeff * tenPow b.scale * tenPow maxScale
      = a.units * (tenPow a.scale * tenPow b.scale : Nat) := by
  have hsplit := tenPow_sub_mul a.scale_le
  unfold units scaledTo
  rw [show maxScale = 28 from rfl] at *
  rw [← hsplit]
  push_cast
  ring

theorem lt_iff_units {a b : Decimal} : a < b ↔ a.units < b.units := by
  have hten : (0 : Int) < (tenPow maxScale : Nat) := by exact_mod_cast tenPow_pos maxScale
  have hboth : (0 : Int) < (tenPow a.scale * tenPow b.scale : Nat) := by
    exact_mod_cast Nat.mul_pos (tenPow_pos _) (tenPow_pos _)
  have hb := cross_mul_eq b a
  rw [Nat.mul_comm (tenPow b.scale)] at hb
  show a.signedCoeff * tenPow b.scale < b.signedCoeff * tenPow a.scale ↔ _
  rw [← Int.mul_lt_mul_right hten, cross_mul_eq a b, hb, Int.mul_lt_mul_right hboth]

theorem le_iff_units {a b : Decimal} : a ≤ b ↔ a.units ≤ b.units := by
  have hten : (0 : Int) < (tenPow maxScale : Nat) := by exact_mod_cast tenPow_pos maxScale
  have hboth : (0 : Int) < (tenPow a.scale * tenPow b.scale : Nat) := by
    exact_mod_cast Nat.mul_pos (tenPow_pos _) (tenPow_pos _)
  have hb := cross_mul_eq b a
  rw [Nat.mul_comm (tenPow b.scale)] at hb
  show a.signedCoeff * tenPow b.scale ≤ b.signedCoeff * tenPow a.scale ↔ _
  rw [← Int.mul_le_mul_right hten, cross_mul_eq a b, hb, Int.mul_le_mul_right hboth]

protected theorem le_refl (a : Decimal) : a ≤ a :=
  le_iff_units.2 (Int.le_refl _)

protected theorem le_trans {a b c : Decimal} (hab : a ≤ b) (hbc : b ≤ c) : a ≤ c :=
  le_iff_units.2 (Int.le_trans (le_iff_units.1 hab) (le_iff_units.1 hbc))

protected theorem lt_of_lt_of_le {a b c : Decimal} (hab : a < b) (hbc : b ≤ c) : a < c :=
  lt_iff_units.2 (Int.lt_of_lt_of_le (lt_iff_units.1 hab) (le_iff_units.1 hbc))

theorem not_le {a b : Decimal} : ¬ a ≤ b ↔ b < a := by
  rw [lt_iff_units, le_iff_units, Int.not_le]

theorem le_greatest (d : Decimal) : d ≤ greatest := by
  have hcoeff : d.coeff ≤ 79228162514264337593543950335 := Nat.le_of_lt_succ d.coeff_lt
  have hten := tenPow_mono (Nat.sub_le maxScale d.scale)
  have hle := Nat.mul_le_mul hcoeff hten
  rw [← natAbs_units] at hle
  have hgreatest : greatest.units = (79228162514264337593543950335 * tenPow maxScale : Nat) := rfl
  rw [le_iff_units, hgreatest]
  omega

theorem units_max (a b : Decimal) : (a.max b).units = Max.max a.units b.units := by
  unfold max
  by_cases h : a < b
  · rw [if_pos h]
    rw [lt_iff_units] at h
    omega
  · rw [if_neg h]
    rw [lt_iff_units] at h
    omega

theorem units_min (a b : Decimal) : (a.min b).units = Min.min a.units b.units := by
  unfold min
  by_cases h : b < a
  · rw [if_pos h]
    rw [lt_iff_units] at h
    omega
  · rw [if_neg h]
    rw [lt_iff_units] at h
    omega

end Decimal

end Clearing

import Clearing.Proofs.Decimal.Products

/-!
Turning signs around, and cutting decimals off.

Rounding treats both signs alike (`roundedRatio?_neg`), and it never takes a ratio past a decimal
that the ratio does not pass (`exists_roundedRatio?_le`).  Cutting the decimals off a number is
the division of its count that goes towards zero (`truncToInt_eq_tdiv`), so it does not look at
the sign either.
-/

namespace Clearing

namespace Decimal

/-! ### Signs -/

theorem neg_signed (negative : Bool) (n : Nat) : -signed negative n = signed (!negative) n := by
  cases negative <;> simp [signed]

section Ratio

variable {p t bound : Int} {d : Nat}

/-- **Both signs are rounded alike.** -/
theorem roundedRatio?_neg (hd : 0 < d) (p : Int) :
    roundedRatio? (-p) d = (roundedRatio? p d).map (- ·) := by
  have hneg : ∀ r : Nat, -signed (decide (p < 0)) r = signed (!decide (p < 0)) r :=
    neg_signed _
  have hsame := roundedRatio?_signed hd (!decide (p < 0)) p.natAbs
  rw [← hneg, signed_natAbs] at hsame
  rw [hsame, roundedRatio?, Option.map_map]
  congr 1
  funext r
  exact (hneg r).symm

/-- Only what is above zero is rounded to something above zero. -/
theorem pos_of_roundedRatio? (hd : 0 < d) (h : roundedRatio? p d = some t) (ht : 0 < t) :
    0 < p := by
  by_contra hp
  have := roundedRatio?_nonpos hd h (by omega)
  omega

/-- Dividing what a decimal was multiplied with gives the decimal back. -/
theorem roundedRatio?_mul_self (hd : 0 < d) (hbound : Representable bound) :
    roundedRatio? (bound * d) d = some bound := by
  rw [← rounded?_of_representable hbound, rounded?_eq_roundedRatio?]
  exact roundedRatio?_congr hd Nat.one_pos (by rw [Int.natCast_one, Int.mul_one])

/-- **A ratio no further from zero than a decimal is rounded, and to nothing further.** -/
theorem exists_roundedRatio?_le (hd : 0 < d) (hbound : Representable bound)
    (h : p.natAbs ≤ bound.natAbs * d) :
    ∃ t, roundedRatio? p d = some t ∧ t.natAbs ≤ bound.natAbs := by
  have hself := roundedRatio?_mul_self hd hbound
  have hle : p.natAbs * d ≤ (bound * d).natAbs * d := by
    rw [Int.natAbs_mul, Int.natAbs_natCast]
    exact Nat.mul_le_mul_right d h
  obtain ⟨t, ht⟩ := roundedRatio?_of_natAbs_le hd hd hle hself
  exact ⟨t, ht, roundedRatio?_natAbs_mono hd hd hle ht hself⟩

end Ratio

theorem rounded?_neg (n : Int) : rounded? (-n) = (rounded? n).map (- ·) := by
  rw [rounded?_eq_roundedRatio?, rounded?_eq_roundedRatio?, roundedRatio?_neg Nat.one_pos]

/-- A difference of two counts is rounded to nothing further from zero than their sum is. -/
theorem exists_rounded?_sub_le {m n s : Int} (hm : 0 ≤ m) (hn : 0 ≤ n)
    (hsum : rounded? (m + n) = some s) : ∃ t, rounded? (m - n) = some t ∧ t.natAbs ≤ s.natAbs := by
  rw [rounded?_eq_roundedRatio?] at hsum ⊢
  have hle : (m - n).natAbs * 1 ≤ (m + n).natAbs * 1 := by omega
  obtain ⟨t, ht⟩ := roundedRatio?_of_natAbs_le Nat.one_pos Nat.one_pos hle hsum
  exact ⟨t, ht, roundedRatio?_natAbs_mono Nat.one_pos Nat.one_pos hle ht hsum⟩

/-! ### Whole parts -/

theorem tdiv_signed (negative : Bool) (n d : Nat) :
    (signed negative n).tdiv d = signed negative (n / d) := by
  cases negative with
  | false => exact (Int.ofNat_tdiv n d).symm
  | true => simp [signed, Int.neg_tdiv]

/-- **The whole part is the count divided towards zero.** -/
theorem truncToInt_eq_tdiv (d : Decimal) : d.truncToInt = d.units.tdiv (tenPow maxScale) := by
  rw [units_eq, tdiv_signed, ← tenPow_sub_mul d.scale_le, Nat.mul_comm,
    Nat.mul_div_mul_left _ _ (tenPow_pos _)]
  rfl

end Decimal

end Clearing

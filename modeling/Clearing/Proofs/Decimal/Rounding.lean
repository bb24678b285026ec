import Clearing.Proofs.Decimal.Ratio

/-!
What rounding does to a sum, said about counts of units.

A decimal that a coefficient and a scale are fitted to has the count of the ratio that they are
(`fit_map_units`).  `rounded? n` is the count of the decimal that `n` units come out as, and sums
and differences of decimals are the rounded sums and differences of their counts (`add?_units`,
`sub?_units`).  So whether a sum is exact depends on one integer alone, and the count of a decimal
survives rounding (`rounded?_of_representable`).  Rounding keeps the order of counts
(`rounded?_mono`), hence signs, and a count that is not zero does not become zero.
-/

namespace Clearing

namespace Decimal

/-! ### Fitting -/

theorem leastDrop_eq_some_iff {c s k : Nat} :
    leastDrop c s = some k ↔
      c / tenPow k < coeffBound ∧ (s - maxScale ≤ k ∧ k ≤ s) ∧
        ∀ j, s - maxScale ≤ j → j < k → coeffBound ≤ c / tenPow j := by
  unfold leastDrop
  rw [List.find?_range'_eq_some, List.mem_range'_1]
  simp only [decide_eq_true_eq, Bool.not_eq_eq_eq_not, Bool.not_true, decide_eq_false_iff_not,
    Nat.not_lt, Nat.add_sub_cancel' (Nat.le_succ_of_le (Nat.sub_le s maxScale)),
    Nat.lt_add_one_iff (n := s)]

theorem leastDrop_eq_none_iff {c s : Nat} :
    leastDrop c s = none ↔ coeffBound ≤ c / tenPow s := by
  unfold leastDrop
  rw [List.find?_range'_eq_none]
  simp only [Bool.not_eq_eq_eq_not, Bool.not_true, decide_eq_false_iff_not, Nat.not_lt]
  constructor
  · intro h
    exact h s (Nat.sub_le _ _) (by omega)
  · intro h j _ hj
    exact Nat.le_trans h (Nat.div_le_div_left (tenPow_mono (by omega)) (tenPow_pos j))

/-- The places that go from `c / 10 ^ s`, counted in units. -/
theorem div_units (c : Nat) {s j k : Nat} (h : s + j = k + maxScale) :
    c * tenPow maxScale / (tenPow s * tenPow j) = c / tenPow k := by
  rw [← tenPow_add, h, tenPow_add, Nat.mul_div_mul_right _ _ (tenPow_pos _)]

theorem roundHalfEven_units (c : Nat) {s j k : Nat} (h : s + j = k + maxScale) :
    roundHalfEven (c * tenPow maxScale) (tenPow s * tenPow j) = roundHalfEven c (tenPow k) := by
  rw [← tenPow_add, h, tenPow_add, roundHalfEven_mul_right (tenPow_pos _)]

/-- The units of a decimal that keeps `s - k` places. -/
theorem units_ofParts? {negative : Bool} {c s j k : Nat} (hc : c < coeffBound) (hk : k ≤ s)
    (h : s + j = k + maxScale) :
    (ofParts? negative c (s - k)).map units = some (signed negative (c * tenPow j)) := by
  rw [ofParts?_of_le hc (by omega), Option.map_some, units_eq,
    show maxScale - (s - k) = j by omega]

/-- Where nothing has to go, the places up to the last possible one hold zeros. -/
theorem fitRatio_of_fits {c s : Nat} (hc : c < coeffBound) (hs : s ≤ maxScale) :
    fitRatio (c * tenPow maxScale) (tenPow s) = some (c * tenPow (maxScale - s)) := by
  rw [← fitRatio_exact hc (Nat.sub_le maxScale s)]
  refine fitRatio_congr (tenPow_pos s) Nat.one_pos ?_
  rw [Nat.mul_one, Nat.mul_assoc, tenPow_sub_mul hs]

/-- The places that go from a coefficient are those that go from the ratio, counted in units. -/
theorem ratioDrop_of_leastDrop {c s j k : Nat} (h : leastDrop c s = some k)
    (hsome : ¬(k = 0 ∧ s ≤ maxScale)) (hj : s + j = k + maxScale) :
    ratioDrop (c * tenPow maxScale) (tenPow s) = some j := by
  obtain ⟨hfits, ⟨hlow, hk⟩, hmin⟩ := leastDrop_eq_some_iff.1 h
  refine ratioDrop_eq_some_iff.2 ⟨by rwa [div_units c hj], by omega, fun i hi => ?_⟩
  by_cases hsi : maxScale ≤ s + i
  · rw [div_units c (show s + i = s + i - maxScale + maxScale by omega)]
    exact hmin _ (by omega) (by omega)
  · have hpos : coeffBound ≤ c / tenPow 0 := hmin 0 (by omega) (by omega)
    rw [tenPow_zero, Nat.div_one] at hpos
    refine Nat.le_trans hpos ?_
    rw [Nat.le_div_iff_mul_le (Nat.mul_pos (tenPow_pos _) (tenPow_pos _)), ← tenPow_add]
    exact Nat.mul_le_mul_left c (tenPow_mono (by omega))

theorem fit_map_units (negative : Bool) (c s : Nat) :
    (fit negative c s).map units =
      (fitRatio (c * tenPow maxScale) (tenPow s)).map (signed negative) := by
  unfold fit
  cases hdrop : leastDrop c s with
  | none =>
    have hbig := leastDrop_eq_none_iff.1 hdrop
    rw [← div_units c (rfl : s + maxScale = s + maxScale)] at hbig
    rw [fitRatio_of_ratioDrop_none (ratioDrop_eq_none_iff.2 hbig)]
    rfl
  | some k =>
    obtain ⟨hfits, ⟨hlow, hk⟩, -⟩ := leastDrop_eq_some_iff.1 hdrop
    dsimp only
    by_cases hwhole : k = 0 ∧ s ≤ maxScale
    · obtain ⟨rfl, hs⟩ := hwhole
      rw [tenPow_zero, Nat.div_one] at hfits
      have hround : roundHalfEven c (tenPow 0) = c := by
        have := roundHalfEven_mul_self (tenPow_pos 0) c
        rwa [tenPow_zero, Nat.mul_one] at this
      rw [hround, if_pos hfits, fitRatio_of_fits hfits hs]
      exact units_ofParts? hfits (Nat.zero_le s) (by omega)
    · obtain ⟨j, hj⟩ : ∃ j, s + j = k + maxScale := ⟨k + maxScale - s, by omega⟩
      have hratio := ratioDrop_of_leastDrop hdrop hwhole hj
      by_cases hround : roundHalfEven c (tenPow k) < coeffBound
      · rw [if_pos hround, units_ofParts? hround hk hj,
          fitRatio_eq_some_iff.2 ⟨j, hratio, .inl ⟨by rwa [roundHalfEven_units c hj], rfl⟩⟩,
          Option.map_some, roundHalfEven_units c hj]
      · rw [if_neg hround]
        rw [← roundHalfEven_units c hj] at hround
        by_cases hlast : s = k
        · obtain rfl : j = maxScale := by omega
          rw [if_pos hlast, fitRatio_eq_none_iff.2 (Nat.le_of_not_lt hround)]
          rfl
        · rw [if_neg hlast, Nat.sub_sub,
            units_ofParts? roundHalfEven_coeffBound_lt (by omega)
              (show s + (j + 1) = k + 1 + maxScale by omega),
            fitRatio_eq_some_iff.2 ⟨j, hratio, .inr ⟨Nat.le_of_not_lt hround, by omega, rfl⟩⟩,
            Option.map_some]

/-- **A decimal that fits has the count of the ratio that was fitted.** -/
theorem fit_units (negative : Bool) (c s : Nat) :
    (fit negative c s).map units
      = roundedRatio? (signed negative c * tenPow maxScale) (tenPow s) := by
  rw [fit_map_units, ← roundedRatio?_signed (tenPow_pos s), signed_mul]

theorem fit_natAbs_units (n : Int) (s : Nat) :
    (fit (decide (n < 0)) n.natAbs s).map units
      = roundedRatio? (n * tenPow maxScale) (tenPow s) := by
  rw [fit_units, signed_natAbs]

/-! ### Rounding a count -/

/-- The count of the decimal that a count of units is rounded to, if there is one. -/
def rounded? (n : Int) : Option Int :=
  (fit (decide (n < 0)) n.natAbs maxScale).map units

theorem rounded?_eq_roundedRatio? (n : Int) : rounded? n = roundedRatio? n 1 := by
  unfold rounded?
  rw [fit_natAbs_units]
  exact roundedRatio?_congr (tenPow_pos maxScale) Nat.one_pos (by rw [Int.natCast_one, Int.mul_one])

/-- A count that some decimal has. -/
def Representable (n : Int) : Prop :=
  ∃ d : Decimal, d.units = n

theorem representable_units (d : Decimal) : Representable d.units :=
  ⟨d, rfl⟩

theorem Representable.neg {n : Int} (h : Representable n) : Representable (-n) := by
  obtain ⟨d, rfl⟩ := h
  exact ⟨-d, units_neg d⟩

/-- Rounding leaves the count of a decimal alone. -/
theorem rounded?_of_representable {n : Int} (h : Representable n) : rounded? n = some n := by
  obtain ⟨d, rfl⟩ := h
  rw [rounded?_eq_roundedRatio?, roundedRatio?, natAbs_units,
    fitRatio_exact d.coeff_lt (Nat.sub_le maxScale d.scale), Option.map_some, ← natAbs_units,
    signed_natAbs]

@[simp] theorem rounded?_units (d : Decimal) : rounded? d.units = some d.units :=
  rounded?_of_representable (representable_units d)

/-! ### Order -/

theorem rounded?_nonneg {n r : Int} (h : rounded? n = some r) (hn : 0 ≤ n) : 0 ≤ r :=
  roundedRatio?_nonneg (rounded?_eq_roundedRatio? n ▸ h) hn

/-- **Rounding keeps the order of counts.** -/
theorem rounded?_mono {n m r s : Int} (h : n ≤ m) (hn : rounded? n = some r)
    (hm : rounded? m = some s) : r ≤ s := by
  rw [rounded?_eq_roundedRatio?] at hn hm
  exact roundedRatio?_mono Nat.one_pos Nat.one_pos (by omega) hn hm

/-- What is not zero is not rounded to zero. -/
theorem rounded?_ne_zero {n r : Int} (h : rounded? n = some r) (hn : n ≠ 0) : r ≠ 0 := by
  -- One unit and its negative are decimals, so rounding cannot pass them on the way to zero.
  have hone : Representable 1 := ⟨⟨false, 1, 28, by decide, by decide⟩, rfl⟩
  rcases Int.lt_or_gt_of_ne hn with hneg | hpos
  · have := rounded?_mono (by omega : n ≤ -1) h (rounded?_of_representable hone.neg)
    omega
  · have := rounded?_mono (by omega : 1 ≤ n) (rounded?_of_representable hone) h
    omega

/-! ### Sums and differences -/

/-- **A sum of decimals is the rounded sum of their counts.** -/
theorem add?_units (a b : Decimal) : (a.add? b).map units = rounded? (a.units + b.units) := by
  unfold add?
  split
  · rename_i ha
    rw [units_eq_zero_iff.2 ha, Int.zero_add, rounded?_units, Option.map_some]
  · split
    · rename_i hb
      rw [units_eq_zero_iff.2 hb, Int.add_zero, rounded?_units, Option.map_some]
    · dsimp only
      have hscale : Nat.max a.scale b.scale ≤ maxScale := Nat.max_le.2 ⟨a.scale_le, b.scale_le⟩
      have hsum : (a.scaledTo (Nat.max a.scale b.scale) + b.scaledTo (Nat.max a.scale b.scale))
          * tenPow (maxScale - Nat.max a.scale b.scale) = a.units + b.units := by
        rw [Int.add_mul, scaledTo_mul_tenPow (Nat.le_max_left ..) hscale,
          scaledTo_mul_tenPow (Nat.le_max_right ..) hscale]
      generalize a.scaledTo (Nat.max a.scale b.scale) + b.scaledTo (Nat.max a.scale b.scale) = sum
        at hsum ⊢
      rw [fit_natAbs_units, rounded?_eq_roundedRatio?]
      refine roundedRatio?_congr (tenPow_pos _) Nat.one_pos ?_
      rw [← hsum, Int.natCast_one, Int.mul_one, Int.mul_assoc, ← Int.natCast_mul,
        tenPow_sub_mul hscale]

/-- **A difference of decimals is the rounded difference of their counts.** -/
theorem sub?_units (a b : Decimal) : (a.sub? b).map units = rounded? (a.units - b.units) := by
  unfold sub?
  split
  · rename_i hb
    rw [add?_units, units_eq_zero_iff.2 hb, Int.add_zero, Int.sub_zero]
  · rw [add?_units, units_neg, Int.sub_eq_add_neg]

end Decimal

end Clearing

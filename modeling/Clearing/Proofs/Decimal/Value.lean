import Clearing.Proofs.Decimal.Products
import Mathlib.Algebra.Order.Field.Rat
import Mathlib.Tactic.FieldSimp
import Mathlib.Tactic.Linarith
import Mathlib.Tactic.Positivity

/-!
Decimals as the numbers they stand for, and how far off rounding is.

A decimal stands for a rational number (`value`).  Every sum, difference, product and quotient is
the exact one, rounded (`IsRounded`).  Rounding leaves a decimal alone (`IsRounded.value_eq_iff`),
and misses any other number by no more than half a unit of the last place or five parts in 2^96 of
the number, whichever is more (`IsRounded.near`).
-/

namespace Clearing

namespace Decimal

/-! ### How far off a ratio is rounded -/

theorem roundHalfEven_near {d : Nat} (hd : 0 < d) (n : Nat) :
    |(roundHalfEven n d : ℚ) - n / d| ≤ 1 / 2 := by
  have hround : 2 * n ≤ 2 * (roundHalfEven n d * d) + d ∧
      2 * (roundHalfEven n d * d) ≤ 2 * n + d := by
    have hsplit := Nat.div_add_mod' n d
    have hrest := Nat.mod_lt n hd
    have hsucc : (n / d + 1) * d = n / d * d + d := Nat.succ_mul _ _
    unfold roundHalfEven
    dsimp only
    split <;> omega
  have hpos : (0 : ℚ) < d := by exact_mod_cast hd
  have hbelow : 2 * (n : ℚ) ≤ 2 * (roundHalfEven n d * d) + d := by exact_mod_cast hround.1
  have habove : 2 * ((roundHalfEven n d : ℚ) * d) ≤ 2 * n + d := by exact_mod_cast hround.2
  rw [abs_sub_le_iff]
  constructor
  · rw [sub_le_iff_le_add, ← mul_le_mul_iff_left₀ hpos, add_mul, div_mul_cancel₀ _ hpos.ne']
    linarith
  · rw [sub_le_iff_le_add, div_le_iff₀ hpos]
    linarith

theorem cast_tenPow_pos (k : Nat) : (0 : ℚ) < tenPow k := by
  exact_mod_cast tenPow_pos k

theorem tenPow_succ (k : Nat) : tenPow (k + 1) = 10 * tenPow k :=
  (tenPow_add k 1).trans (Nat.mul_comm ..)

variable {n d r : Nat}

/-- Rounding to the places that are kept is off by half of the last of them. -/
theorem roundHalfEven_mul_near (hd : 0 < d) (n k : Nat) :
    |(roundHalfEven n (d * tenPow k) : ℚ) * tenPow k - n / d| ≤ tenPow k / 2 := by
  have hplace := cast_tenPow_pos k
  have hpos : (0 : ℚ) < d := by exact_mod_cast hd
  -- The ratio counted in the last place that is kept.
  have hcount : (n : ℚ) / (d * tenPow k : Nat) * tenPow k = n / d := by
    push_cast
    field_simp
  have hnear := roundHalfEven_near (Nat.mul_pos hd (tenPow_pos k)) n
  rw [← hcount, ← sub_mul, abs_mul, abs_of_pos hplace]
  linarith [mul_le_mul_of_nonneg_right hnear hplace.le]

/-- Where a place goes, the ratio would not have fitted with it. -/
theorem le_of_ratioDrop_succ {j : Nat} (hd : 0 < d) (h : ratioDrop n d = some (j + 1)) :
    (coeffBound : ℚ) * tenPow j ≤ n / d := by
  obtain ⟨-, -, hleast⟩ := ratioDrop_eq_some_iff.1 h
  have hlarge : coeffBound * (d * tenPow j) ≤ n :=
    (Nat.le_div_iff_mul_le (Nat.mul_pos hd (tenPow_pos j))).1 (hleast j (Nat.lt_succ_self j))
  rw [le_div_iff₀ (by exact_mod_cast hd)]
  exact_mod_cast (by rwa [Nat.mul_comm d, ← Nat.mul_assoc] at hlarge)

/-- With the places that are kept the ratio fits. -/
theorem le_of_ratioDrop {k : Nat} (hd : 0 < d) (h : ratioDrop n d = some k) :
    (n : ℚ) / d ≤ coeffBound * tenPow k := by
  obtain ⟨hfits, -⟩ := ratioDrop_eq_some_iff.1 h
  have hlt := (Nat.div_lt_iff_lt_mul (Nat.mul_pos hd (tenPow_pos k))).1 hfits
  rw [div_le_iff₀ (by exact_mod_cast hd)]
  rw [Nat.mul_comm d, ← Nat.mul_assoc] at hlt
  exact_mod_cast hlt.le

/-- Fitting gives up no more places than it has to, and is off by half of the last one it keeps: by
half a unit where every place is kept.  A carry past the bound is off by less than five. -/
theorem fitRatio_near (hd : 0 < d) (h : fitRatio n d = some r) :
    |(r : ℚ) - n / d| ≤ 1 / 2 ∨ |(r : ℚ) - n / d| ≤ 5 * (n / d) / coeffBound := by
  obtain ⟨k, hdrop, hform⟩ := fitRatio_eq_some_iff.1 h
  have hplace := cast_tenPow_pos k
  have hround := roundHalfEven_mul_near hd n k
  have hten (j : Nat) : (tenPow (j + 1) : ℚ) = 10 * tenPow j := by exact_mod_cast tenPow_succ j
  rcases hform with ⟨-, rfl⟩ | ⟨hcarry, -, rfl⟩
  · cases k with
    | zero =>
      refine .inl ?_
      simpa [tenPow_zero] using hround
    | succ j =>
      have hlarge := le_of_ratioDrop_succ hd hdrop
      refine .inr ?_
      push_cast at hround ⊢
      refine hround.trans ?_
      rw [hten, le_div_iff₀ (by norm_num)]
      linarith
  · have hlast : roundHalfEven n (d * tenPow k) = coeffBound := by
      have hle := roundHalfEven_le n (d * tenPow k)
      have hfits := (ratioDrop_eq_some_iff.1 hdrop).1
      omega
    have hsmall := le_of_ratioDrop hd hdrop
    rw [hlast, abs_le] at hround
    refine .inr ?_
    rw [roundHalfEven_coeffBound]
    push_cast at hround hsmall ⊢
    rw [hten, abs_of_nonneg (by linarith), le_div_iff₀ (by norm_num)]
    linarith

theorem cast_signed (negative : Bool) (n : Nat) :
    ((signed negative n : Int) : ℚ) = if negative then -(n : ℚ) else n := by
  cases negative <;> simp [signed]

theorem roundedRatio?_near {p t : Int} (hd : 0 < d) (h : roundedRatio? p d = some t) :
    |(t : ℚ) - p / d| ≤ 1 / 2 ∨ |(t : ℚ) - p / d| ≤ 5 * |(p : ℚ) / d| / coeffBound := by
  obtain ⟨r, hr, rfl⟩ := roundedRatio?_eq_some h
  have hnear := fitRatio_near hd hr
  have hratio : (0 : ℚ) ≤ p.natAbs / d := by positivity
  rcases Int.lt_or_le p 0 with hneg | hnonneg
  · have hp : (p : ℚ) = -p.natAbs := by
      exact_mod_cast (by omega : p = -(p.natAbs : Int))
    rw [decide_eq_true hneg, cast_signed, if_pos rfl, hp, neg_div, abs_neg, abs_of_nonneg hratio,
      neg_sub_neg, abs_sub_comm]
    exact hnear
  · have hp : (p : ℚ) = p.natAbs := by
      rw [Nat.cast_natAbs, abs_of_nonneg hnonneg]
    rw [decide_eq_false (by omega), cast_signed, if_neg Bool.false_ne_true, hp,
      abs_of_nonneg hratio]
    exact hnear

/-! ### The number that a decimal stands for -/

/-- The number that a decimal stands for. -/
def value (d : Decimal) : ℚ :=
  d.units / tenPow maxScale

/-- The number is one that a decimal stands for. -/
def IsDecimal (x : ℚ) : Prop :=
  ∃ d : Decimal, d.value = x

/-- The decimal is what a number is rounded to. -/
def IsRounded (c : Decimal) (x : ℚ) : Prop :=
  roundedRatio? (x.num * tenPow maxScale) x.den = some c.units

/-- How far off it may be to round a number. -/
def tolerance (x : ℚ) : ℚ :=
  Max.max (1 / 2 / tenPow maxScale) (5 * |x| / coeffBound)

variable {a b c : Decimal} {q : String} {x : ℚ}

theorem units_eq_value_mul (a : Decimal) : (a.units : ℚ) = a.value * tenPow maxScale := by
  have hpos := cast_tenPow_pos maxScale
  unfold value
  rw [div_mul_cancel₀ _ hpos.ne']

@[simp] theorem value_zero : zero.value = 0 := by
  unfold value
  rw [units_zero, Int.cast_zero, zero_div]

theorem value_inj : a.value = b.value ↔ a.units = b.units := by
  have hpos := cast_tenPow_pos maxScale
  unfold value
  rw [div_left_inj' hpos.ne', Int.cast_inj]

theorem value_pos : 0 < a.value ↔ zero < a := by
  have hpos := cast_tenPow_pos maxScale
  unfold value
  rw [div_pos_iff_of_pos_right hpos, Int.cast_pos, zero_lt_iff]

theorem value_lt : a.value < b.value ↔ a < b := by
  have hpos := cast_tenPow_pos maxScale
  unfold value
  rw [div_lt_div_iff_of_pos_right hpos, Int.cast_lt, lt_iff_units]

theorem value_le : a.value ≤ b.value ↔ a ≤ b := by
  rw [← not_lt, value_lt, ← Decimal.not_le, not_not]

/-- Written out to `k` places, a decimal of no more places is a whole number. -/
theorem value_mul_tenPow {k : Nat} (ha : a.scale ≤ k) (hk : k ≤ maxScale) :
    a.value * tenPow k = a.scaledTo k := by
  have hpos := cast_tenPow_pos maxScale
  have hplaces : (tenPow maxScale : ℚ) = tenPow (maxScale - k) * tenPow k := by
    exact_mod_cast (tenPow_sub_mul hk).symm
  have hcount : (a.units : ℚ) = a.scaledTo k * tenPow (maxScale - k) := by
    exact_mod_cast (scaledTo_mul_tenPow ha hk).symm
  unfold value
  rw [hcount, div_mul_eq_mul_div, div_eq_iff hpos.ne', hplaces, mul_assoc]

/-- A product has as many places as its factors have together. -/
theorem count_mul {y : ℚ} {m n : Int} {j k : Nat} (hx : x * tenPow j = m)
    (hy : y * tenPow k = n) : x * y * tenPow (j + k) = (m * n : Int) := by
  rw [tenPow_add, Nat.cast_mul, Int.cast_mul, ← hx, ← hy]
  ring

/-- A number is a decimal if there is room for the digits that it has in so many places. -/
theorem isDecimal_of_scale {n : Int} {k : Nat} (hn : n.natAbs < coeffBound) (hk : k ≤ maxScale)
    (hx : x * tenPow k = n) : IsDecimal x := by
  have hwritten : scaledTo ⟨decide (n < 0), n.natAbs, k, hn, hk⟩ k = n := by
    show signed (decide (n < 0)) n.natAbs * tenPow (k - k) = n
    rw [signed_natAbs, Nat.sub_self, tenPow_zero, Nat.cast_one, Int.mul_one]
  refine ⟨⟨decide (n < 0), n.natAbs, k, hn, hk⟩, mul_right_cancel₀ (cast_tenPow_pos k).ne' ?_⟩
  rw [value_mul_tenPow (Nat.le_refl k) hk, hwritten, hx]

/-- However a number is written as a ratio, it is rounded alike. -/
theorem isRounded_iff {p : Int} (hd : 0 < d) (hx : x * tenPow maxScale = p / d) :
    c.IsRounded x ↔ roundedRatio? p d = some c.units := by
  have hden : (0 : ℚ) < x.den := by exact_mod_cast x.den_pos
  have hpos : (0 : ℚ) < d := by exact_mod_cast hd
  have hcross : x.num * tenPow maxScale * d = p * x.den := by
    rw [← Rat.num_div_den x, div_mul_eq_mul_div, div_eq_div_iff hden.ne' hpos.ne'] at hx
    exact_mod_cast hx
  unfold IsRounded
  rw [roundedRatio?_congr x.den_pos hd hcross]

/-! ### What rounding does -/

namespace IsRounded

/-- Nothing is lost just where the number is a decimal. -/
theorem value_eq_iff (h : c.IsRounded x) : c.value = x ↔ IsDecimal x := by
  constructor
  · intro heq
    exact ⟨c, heq⟩
  · rintro ⟨d, rfl⟩
    have hcount : d.value * tenPow maxScale = d.units / (1 : Nat) := by
      rw [units_eq_value_mul, Nat.cast_one, div_one]
    rw [isRounded_iff Nat.one_pos hcount, ← rounded?_eq_roundedRatio?, rounded?_units,
      Option.some.injEq] at h
    exact value_inj.2 h.symm

theorem near (h : c.IsRounded x) : |c.value - x| ≤ tolerance x := by
  have hpos := cast_tenPow_pos maxScale
  have hcount : ((x.num * tenPow maxScale : Int) : ℚ) / x.den = x * tenPow maxScale := by
    push_cast
    rw [← div_mul_eq_mul_div, Rat.num_div_den]
  have hnear := roundedRatio?_near x.den_pos h
  rw [hcount, units_eq_value_mul, ← sub_mul, abs_mul, abs_mul, abs_of_pos hpos] at hnear
  refine le_max_iff.2 (hnear.imp (fun hhalf => ?_) fun hfive => ?_)
  · rwa [le_div_iff₀ hpos]
  · rwa [← mul_assoc, ← div_mul_eq_mul_div, mul_le_mul_iff_left₀ hpos] at hfive

end IsRounded

theorem isRounded_add (h : a.add b q = .ok c) : c.IsRounded (a.value + b.value) := by
  rw [isRounded_iff Nat.one_pos (p := a.units + b.units), ← rounded?_eq_roundedRatio?,
    units_of_add h]
  rw [add_mul, ← units_eq_value_mul, ← units_eq_value_mul]
  push_cast
  rw [div_one]

theorem isRounded_sub (h : a.sub b q = .ok c) : c.IsRounded (a.value - b.value) := by
  rw [isRounded_iff Nat.one_pos (p := a.units - b.units), ← rounded?_eq_roundedRatio?,
    units_of_sub h]
  rw [sub_mul, ← units_eq_value_mul, ← units_eq_value_mul]
  push_cast
  rw [div_one]

theorem isRounded_mul (h : a.mul b q = .ok c) : c.IsRounded (a.value * b.value) := by
  have hpos := cast_tenPow_pos maxScale
  rw [isRounded_iff (tenPow_pos maxScale) (p := a.units * b.units), units_of_mul h]
  rw [eq_div_iff hpos.ne', Int.cast_mul, units_eq_value_mul, units_eq_value_mul]
  ring

theorem isRounded_div (h : a.div b q = .ok c) (hb : zero < b) :
    c.IsRounded (a.value / b.value) := by
  have hvalue := value_pos.2 hb
  rw [zero_lt_iff] at hb
  have hcount : ((b.units.toNat : Nat) : ℚ) = b.value * tenPow maxScale := by
    rw [← units_eq_value_mul]
    exact_mod_cast Int.toNat_of_nonneg hb.le
  have hpos := cast_tenPow_pos maxScale
  have hden : 0 < b.units.toNat := by omega
  rw [isRounded_iff hden (p := a.units * tenPow maxScale),
    units_of_quotient? (quotient?_of_div h) (zero_lt_iff.2 hb)]
  rw [hcount, Int.cast_mul, units_eq_value_mul, Int.cast_natCast]
  field_simp

end Decimal

end Clearing

import Clearing.Proofs.Decimal.Checked
import Mathlib.Data.Option.Basic

/-!
What products and quotients are, said about counts of units.

A product of decimals is the rounded product of their counts (`mul?_units`), and a quotient by a
positive decimal the rounded quotient (`quotient?_units`).  A product is fitted once, so it has
the count of the ratio that was fitted.  A quotient is a long division, and what carries it is
that a turn leaves the ratio it was given: digits appended to the quotient are places taken from
what is still to come (`divide_counts`, by induction on the turns).  Where the division ends, its
digits are those that the ratio would have been fitted to at once, so both round the same way.

Products and quotients therefore keep order and signs, and those of smaller numbers exist
wherever those of larger ones do.
-/

namespace Clearing

namespace Decimal

/-! ### Products -/

theorem signed_mul_signed (p q : Bool) (m n : Nat) :
    signed p m * signed q n = signed (p != q) (m * n) := by
  cases p <;> cases q <;> simp [signed]

theorem roundedRatio?_zero {d : Nat} (hd : 0 < d) : roundedRatio? 0 d = some 0 := by
  rw [roundedRatio?, Int.natAbs_zero, fitRatio_zero hd]
  rfl

/-- Less than half of the last place is nothing. -/
theorem fitRatio_eq_zero {n d : Nat} (h : 2 * n < d) : fitRatio n d = some 0 := by
  have hone : d * tenPow 0 = d := Nat.mul_one d
  have hquot : n / d = 0 := Nat.div_eq_of_lt (by omega)
  have hround : roundHalfEven n d = 0 := by
    unfold roundHalfEven
    dsimp only
    rw [hquot, Nat.mod_eq_of_lt (by omega), if_neg (by omega)]
  refine fitRatio_eq_some_iff.2 ⟨0, ratioDrop_eq_some_iff.2 ⟨?_, Nat.zero_le _, nofun⟩, .inl ?_⟩
  · rw [hone, hquot]
    decide
  · rw [hone, hround]
    exact ⟨by decide, rfl⟩

theorem units_abs_of_isZero {d : Decimal} (h : d.isZero = true) : d.abs.units = d.units := by
  have habs : d.abs.isZero = true := h
  rw [units_eq_zero_iff.2 h, units_eq_zero_iff.2 habs]

/-- Where coefficients are multiplied and decimals added, the rounded product of the counts is
fitted. -/
theorem fit_mul_units (a b : Decimal) :
    (fit (a.negative != b.negative) (a.coeff * b.coeff) (a.scale + b.scale)).map units
      = roundedRatio? (a.units * b.units) (tenPow maxScale) := by
  rw [fit_units]
  refine roundedRatio?_congr (tenPow_pos _) (tenPow_pos _) ?_
  have hplaces : tenPow (maxScale - a.scale) * tenPow (maxScale - b.scale)
      * tenPow (a.scale + b.scale) = tenPow maxScale * tenPow maxScale := by
    rw [tenPow_add, Nat.mul_mul_mul_comm, tenPow_sub_mul a.scale_le, tenPow_sub_mul b.scale_le]
  rw [units_eq, units_eq, signed_mul_signed, ← signed_mul, ← signed_mul, ← signed_mul,
    Nat.mul_assoc, ← hplaces]
  congr 1
  ring

/-- With so many decimals the product of two short coefficients is less than half of the last
place. -/
theorem fitRatio_mul_short {a b : Decimal} (ha : a.isShort = true) (hb : b.isShort = true)
    (hscale : 47 < a.scale + b.scale) :
    fitRatio (a.coeff * b.coeff * tenPow maxScale) (tenPow (a.scale + b.scale)) = some 0 := by
  have hsmall : a.coeff * b.coeff < 4294967296 * 4294967296 :=
    Nat.mul_lt_mul'' (of_decide_eq_true ha) (of_decide_eq_true hb)
  refine fitRatio_eq_zero ?_
  calc 2 * (a.coeff * b.coeff * tenPow maxScale)
      = 2 * (a.coeff * b.coeff) * tenPow maxScale := (Nat.mul_assoc ..).symm
    _ < tenPow 20 * tenPow maxScale := by
        rw [Nat.mul_lt_mul_right (tenPow_pos _)]
        exact Nat.lt_trans (Nat.mul_lt_mul_of_pos_left hsmall (by decide)) (by decide)
    _ = tenPow (20 + maxScale) := (tenPow_add ..).symm
    _ ≤ tenPow (a.scale + b.scale) :=
        tenPow_mono (by rw [show maxScale = 28 from rfl]; omega)

/-- **A product of decimals is the rounded product of their counts.** -/
theorem mul?_units (a b : Decimal) :
    (a.mul? b).map units = roundedRatio? (a.units * b.units) (tenPow maxScale) := by
  unfold mul?
  by_cases hzero : (a.isZero || b.isZero) = true
  · have hproduct : a.units * b.units = 0 := by
      rcases Bool.or_eq_true_iff.1 hzero with h | h
      · rw [units_eq_zero_iff.2 h, Int.zero_mul]
      · rw [units_eq_zero_iff.2 h, Int.mul_zero]
    rw [if_pos hzero, hproduct, roundedRatio?_zero (tenPow_pos _), Option.map_some, units_zero]
  rw [if_neg hzero]
  dsimp only
  by_cases hfar : (a.isShort && b.isShort && decide (47 < a.scale + b.scale)) = true
  · rw [if_pos hfar, ← fit_mul_units, fit_map_units]
    simp only [Bool.and_eq_true, decide_eq_true_eq] at hfar
    obtain ⟨⟨ha, hb⟩, hscale⟩ := hfar
    rw [fitRatio_mul_short ha hb hscale, Option.map_some, Option.map_some, units_zero]
    cases a.negative != b.negative <;> rfl
  · -- A zero may lose its sign, but not its count.
    rw [if_neg hfar, Option.map_map, ← fit_mul_units]
    congr 1
    funext d
    simp only [Function.comp_apply]
    split
    · rename_i hd
      exact units_abs_of_isZero (Bool.and_eq_true_iff.1 hd).2
    · rfl

/-! ### Where a ratio is cut off

`m * 10 ^ k / d` units are the ratio `m / d` with `k` places still to come.
-/

section Cut

variable {m d k r : Nat}

theorem mul_tenPow_div (hk : k ≤ r) (m d : Nat) :
    m * tenPow r / (d * tenPow k) = m * tenPow (r - k) / d := by
  rw [← tenPow_sub_mul hk, ← Nat.mul_assoc, Nat.mul_div_mul_right _ _ (tenPow_pos k)]

/-- A whole part without room stays without room. -/
theorem fitRatio_eq_none_of_le (hk : maxScale ≤ k)
    (h : coeffBound ≤ m * tenPow (k - maxScale) / d) :
    fitRatio (m * tenPow k) d = none := by
  refine fitRatio_of_ratioDrop_none (ratioDrop_eq_none_iff.2 ?_)
  rwa [mul_tenPow_div hk]

/-- The places still to come go, where the digits fit and one digit more would not. -/
theorem ratioDrop_of_full (hk : k ≤ maxScale) (hfits : m / d < coeffBound)
    (hfull : 0 < k → coeffBound ≤ m * 10 / d) : ratioDrop (m * tenPow k) d = some k := by
  refine ratioDrop_eq_some_iff.2 ⟨?_, hk, fun j hj => ?_⟩
  · rwa [mul_tenPow_div (Nat.le_refl k), Nat.sub_self, tenPow_zero, Nat.mul_one]
  · rw [mul_tenPow_div (Nat.le_of_lt hj)]
    refine Nat.le_trans (hfull (by omega)) (Nat.div_le_div_right (Nat.mul_le_mul_left m ?_))
    exact tenPow_mono (by omega : 1 ≤ k - j)

theorem roundHalfEven_mul_tenPow (m d k : Nat) :
    roundHalfEven (m * tenPow k) (d * tenPow k) = roundHalfEven m d :=
  roundHalfEven_mul_right (tenPow_pos k) m d

/-- What is left of a division decides its rounding. -/
theorem roundHalfEven_mul_add {d r : Nat} (q : Nat) (hr : r < d) :
    roundHalfEven (q * d + r) d = if d < 2 * r ∨ 2 * r = d ∧ q % 2 = 1 then q + 1 else q := by
  have hquot : (q * d + r) / d = q := by
    rw [Nat.mul_comm, Nat.mul_add_div (by omega), Nat.div_eq_of_lt hr, Nat.add_zero]
  have hrest : (q * d + r) % d = r := by
    rw [Nat.mul_comm, Nat.mul_add_mod, Nat.mod_eq_of_lt hr]
  unfold roundHalfEven
  dsimp only
  rw [hquot, hrest]

end Cut

/-! ### Long division -/

/-- The division ended with this count of units. -/
structure Quotient.Counts (q : Quotient) (n : Nat) : Prop where
  digits_lt : q.digits < coeffBound
  scale_le : q.scale ≤ maxScale
  digits_mul : q.digits * tenPow (maxScale - q.scale) = n

theorem lt_of_room {quot limit : Nat} (h : quot < coeffBound) :
    quot * tenPow (room quot limit) < coeffBound := by
  induction limit with
  | zero => simpa [room] using h
  | succ n ih =>
    unfold room
    by_cases hfits : quot * tenPow (n + 1) < coeffBound
    · rwa [if_pos hfits]
    · rwa [if_neg hfits]

theorem room_le (quot limit : Nat) : room quot limit ≤ limit := by
  induction limit with
  | zero => exact Nat.le_refl 0
  | succ n ih =>
    unfold room
    split
    · exact Nat.le_refl _
    · exact Nat.le_succ_of_le ih

/-- There is no room for one digit more, unless no more were asked for. -/
theorem le_of_room_lt {quot limit : Nat} (h : room quot limit < limit) :
    coeffBound ≤ quot * tenPow (room quot limit + 1) := by
  induction limit with
  | zero => omega
  | succ n ih =>
    unfold room at h ⊢
    by_cases hfits : quot * tenPow (n + 1) < coeffBound
    · rw [if_pos hfits] at h
      omega
    · rw [if_neg hfits] at h ⊢
      rcases Nat.lt_or_ge (room quot n) n with hlt | hge
      · exact ih hlt
      · rw [Nat.le_antisymm (room_le quot n) hge]
        exact Nat.le_of_not_lt hfits

section Turn

variable {q r k count den : Nat}

/-- A turn leaves the ratio it was given, with `count` places fewer to come. -/
theorem turn_ratio (hc : count ≤ k) :
    ((q * tenPow count + r * tenPow count / den) * den + r * tenPow count % den)
        * tenPow (k - count) = (q * den + r) * tenPow k := by
  have hrest := Nat.div_add_mod (r * tenPow count) den
  rw [← tenPow_sub_mul hc, Nat.add_mul (q * tenPow count), Nat.mul_comm _ den, Nat.mul_comm _ den]
  rw [Nat.add_assoc, hrest]
  ring

theorem turn_quotient (hden : 0 < den) :
    (q * den + r) * tenPow count / den = q * tenPow count + r * tenPow count / den := by
  rw [Nat.add_mul, Nat.mul_right_comm, Nat.mul_comm (q * tenPow count),
    Nat.mul_add_div hden]

theorem mul_tenPow_le_div (hden : 0 < den) (q r j : Nat) :
    q * tenPow j ≤ (q * den + r) * tenPow j / den := by
  rw [turn_quotient hden]
  exact Nat.le_add_right _ _

/-- Where some of the places to come leave the digits no room, the ratio has none. -/
theorem fitRatio_eq_none_of_over (hden : 0 < den) (hplaces : count + maxScale ≤ k)
    (hover : coeffBound ≤ q * tenPow count) (r : Nat) :
    fitRatio ((q * den + r) * tenPow k) den = none := by
  refine fitRatio_eq_none_of_le (by omega) ?_
  calc coeffBound ≤ q * tenPow count := hover
    _ ≤ q * tenPow (k - maxScale) := Nat.mul_le_mul_left q (tenPow_mono (by omega))
    _ ≤ (q * den + r) * tenPow (k - maxScale) / den := mul_tenPow_le_div hden q r _

/-- Digits that are appended where there is room for zeros stay within a few digits of the
bound. -/
theorem append_lt (hr : r < den) (hkeep : q * tenPow count < coeffBound) (hcount : count ≤ 9) :
    q * tenPow count + r * tenPow count / den < coeffBound + tenPow 9 := by
  have hdigits : r * tenPow count / den < tenPow count :=
    Nat.div_lt_of_lt_mul (Nat.mul_lt_mul_of_pos_right hr (tenPow_pos count))
  have := tenPow_mono hcount
  omega

/-- Nothing remains and no places are missing: the digits are the ratio. -/
theorem exact_counts (hq : q < coeffBound) (hden : 0 < den) (hk : k ≤ maxScale) (inexact : Bool) :
    Option.Rel Quotient.Counts (some ⟨q, ((maxScale : Int) - k).toNat, inexact⟩)
      (fitRatio ((q * den + 0) * tenPow k) den) := by
  have hratio : fitRatio ((q * den + 0) * tenPow k) den = some (q * tenPow k) := by
    rw [← fitRatio_exact hq hk]
    refine fitRatio_congr hden Nat.one_pos ?_
    ring
  rw [hratio]
  refine .some ⟨hq, ?_, ?_⟩
  · dsimp only
    omega
  · dsimp only
    rw [show maxScale - ((maxScale : Int) - k).toNat = k by omega]

/-- No digit more has room: the digits are rounded where they are. -/
theorem ofCarried_counts {m d : Nat} (hk : k ≤ maxScale) (hfits : m / d < coeffBound)
    (hfull : 0 < k → coeffBound ≤ m * 10 / d) :
    Option.Rel Quotient.Counts (Quotient.ofCarried (roundHalfEven m d) ((maxScale : Int) - k))
      (fitRatio (m * tenPow k) d) := by
  have hdrop := ratioDrop_of_full hk hfits hfull
  have hround := roundHalfEven_mul_tenPow m d k
  unfold Quotient.ofCarried
  by_cases hlt : roundHalfEven m d < coeffBound
  · rw [if_pos hlt, fitRatio_eq_some_iff.2 ⟨k, hdrop, .inl ⟨by rwa [hround], rfl⟩⟩, hround]
    refine .some ⟨hlt, ?_, ?_⟩
    · dsimp only
      omega
    · dsimp only
      rw [show maxScale - ((maxScale : Int) - k).toNat = k by omega]
  · rw [if_neg hlt]
    rw [← hround] at hlt
    by_cases hlast : k = maxScale
    · subst hlast
      rw [if_pos (by omega), fitRatio_eq_none_iff.2 (Nat.le_of_not_lt hlt)]
      exact .none
    · rw [if_neg (by omega),
        fitRatio_eq_some_iff.2 ⟨k, hdrop, .inr ⟨Nat.le_of_not_lt hlt, by omega, rfl⟩⟩]
      refine .some ⟨roundHalfEven_coeffBound_lt, ?_, ?_⟩
      · dsimp only
        omega
      · dsimp only
        rw [show maxScale - ((maxScale : Int) - k - 1).toNat = k + 1 by omega]

/-- No digit more has room, and what remains decides the rounding. -/
theorem full_counts (hr : r < den) (hq : q < coeffBound) (hk : k ≤ maxScale)
    (hfull : 0 < k → coeffBound ≤ q * 10) :
    Option.Rel Quotient.Counts
      (Quotient.ofCarried
        (if (decide (den < 2 * r) || decide (2 * r = den ∧ q % 2 = 1)) = true then q + 1 else q)
        ((maxScale : Int) - k))
      (fitRatio ((q * den + r) * tenPow k) den) := by
  have hden : 0 < den := by omega
  have hround : roundHalfEven (q * den + r) den =
      if (decide (den < 2 * r) || decide (2 * r = den ∧ q % 2 = 1)) = true then q + 1 else q := by
    rw [roundHalfEven_mul_add q hr]
    simp only [Bool.or_eq_true_iff, decide_eq_true_eq]
  rw [← hround]
  refine ofCarried_counts hk ?_ fun hpos => ?_
  · rwa [Nat.mul_comm, Nat.mul_add_div hden, Nat.div_eq_of_lt hr, Nat.add_zero]
  · exact Nat.le_trans (hfull hpos) (mul_tenPow_le_div hden q r 1)

/-- Rounding the last digit away: it and what was left behind it are together the rest of a
division by ten times as much. -/
theorem roundHalfEven_lastDigit {next left : Nat} (hleft : left < den) :
    roundHalfEven (next * den + left) (den * 10) =
      if (decide (5 < next % 10) ||
          decide (next % 10 = 5 ∧ (left ≠ 0 ∨ next / 10 % 2 = 1))) = true then next / 10 + 1
      else next / 10 := by
  have hsplit : next * den + left = next / 10 * (den * 10) + (next % 10 * den + left) := by
    calc next * den + left = (10 * (next / 10) + next % 10) * den + left := by
          rw [Nat.div_add_mod next 10]
      _ = next / 10 * (den * 10) + (next % 10 * den + left) := by ring
  have hrest : next % 10 * den + left < den * 10 := by
    have := Nat.mul_le_mul_right den (by omega : next % 10 ≤ 9)
    omega
  rw [hsplit, roundHalfEven_mul_add _ hrest]
  refine if_congr ?_ rfl rfl
  rw [Bool.or_eq_true_iff, decide_eq_true_eq, decide_eq_true_eq]
  rcases Nat.lt_trichotomy (next % 10) 5 with hlow | heq | hhigh
  · have := Nat.mul_le_mul_right den (by omega : next % 10 ≤ 4)
    omega
  · rw [heq]
    omega
  · have := Nat.mul_le_mul_right den (by omega : 6 ≤ next % 10)
    omega

/-- Where a division ends whose digits have run past the bound: the last of them is rounded
away, if it is a decimal. -/
def Quotient.ofOverrun (next left : Nat) (scale : Int) : Option Quotient :=
  if scale - 1 < 0 then none
  else some ⟨if (decide (5 < next % 10) ||
      decide (next % 10 = 5 ∧ (left ≠ 0 ∨ next / 10 % 2 = 1))) = true then next / 10 + 1
    else next / 10, (scale - 1).toNat, true⟩

theorem overrun_counts {next left : Nat} (hleft : left < den) (hover : coeffBound ≤ next)
    (hunder : next < coeffBound + tenPow 9) :
    Option.Rel Quotient.Counts (Quotient.ofOverrun next left ((maxScale : Int) - k))
      (fitRatio ((next * den + left) * tenPow k) den) := by
  have hden : 0 < den := by omega
  unfold Quotient.ofOverrun
  by_cases hplace : (maxScale : Int) - k - 1 < 0
  · have hnext : coeffBound ≤ next * tenPow 0 := by rwa [tenPow_zero, Nat.mul_one]
    rw [if_pos hplace, fitRatio_eq_none_of_over hden (by omega) hnext]
    exact .none
  · rw [if_neg hplace]
    have hratio : fitRatio ((next * den + left) * tenPow k) den
        = fitRatio ((next * den + left) * tenPow (k + 1)) (den * 10) := by
      rw [tenPow_add, ← Nat.mul_assoc, show tenPow 1 = 10 from rfl]
      exact (fitRatio_mul_right (by decide) _ _).symm
    have hquot : (next * den + left) / (den * 10) = next / 10 := by
      rw [← Nat.div_div_eq_div_mul, Nat.mul_comm next, Nat.mul_add_div hden,
        Nat.div_eq_of_lt hleft, Nat.add_zero]
    have hbound : coeffBound = 79228162514264337593543950336 := rfl
    rw [show tenPow 9 = 1000000000 from rfl] at hunder
    have hlt := roundHalfEven_le (next * den + left) (den * 10)
    rw [hquot] at hlt
    have hcounts := ofCarried_counts (k := k + 1) (m := next * den + left) (d := den * 10)
      (by omega) (by omega) fun _ => by
        rw [Nat.mul_div_mul_right _ _ (by decide)]
        exact Nat.le_trans hover ((Nat.le_div_iff_mul_le hden).2 (Nat.le_add_right _ _))
    unfold Quotient.ofCarried at hcounts
    rw [if_pos (by omega)] at hcounts
    rw [hratio, ← roundHalfEven_lastDigit hleft]
    rwa [show (maxScale : Int) - k - 1 = maxScale - (k + 1 : Nat) by omega]

/-- In so many turns a division with fewer places to come ends with the count that the ratio is
fitted to. -/
def DividesIn (den turns : Nat) : Prop :=
  ∀ {q k r : Nat} (inexact : Bool), r < den → q < coeffBound → k < turns →
    Option.Rel Quotient.Counts (divide den turns q ((maxScale : Int) - k) r inexact)
      (fitRatio ((q * den + r) * tenPow k) den)

/-- Digits are appended, and the division goes on with them or ends where they have run past the
bound. -/
theorem DividesIn.append {turns : Nat} (h : DividesIn den turns) (inexact : Bool) (hr : r < den)
    (hkeep : q * tenPow count < coeffBound) (hcount : count ≤ 9) (hk : count ≤ k)
    (hturns : k < turns + count) :
    Option.Rel Quotient.Counts
      (if q * tenPow count + r * tenPow count / den < coeffBound then
        divide den turns (q * tenPow count + r * tenPow count / den)
          ((maxScale : Int) - k + count) (r * tenPow count % den) inexact
      else
        Quotient.ofOverrun (q * tenPow count + r * tenPow count / den) (r * tenPow count % den)
          ((maxScale : Int) - k + count))
      (fitRatio ((q * den + r) * tenPow k) den) := by
  have hunder := append_lt hr hkeep hcount
  have hleft : r * tenPow count % den < den := Nat.mod_lt _ (by omega)
  rw [← turn_ratio hk, show (maxScale : Int) - k + count = maxScale - (k - count : Nat) by omega]
  by_cases hlt : q * tenPow count + r * tenPow count / den < coeffBound
  · rw [if_pos hlt]
    exact h inexact hleft hlt (by omega)
  · rw [if_neg hlt]
    exact overrun_counts hleft (Nat.le_of_not_lt hlt) hunder

/-- How many digits a turn appends: zeros for the whole digits that are missing where nothing
remains, and otherwise as many as there is room for. -/
def turnDigits (q k r : Nat) : Nat :=
  if r = 0 then Min.min 9 (k - maxScale) else room q (Min.min 9 k)

/-- The scale tells how many digits those are. -/
theorem turnDigits_eq (q k r : Nat) : turnDigits q k r =
    if r = 0 then Nat.min 9 (-((maxScale : Int) - k)).toNat
    else room q (Nat.min 9 ((maxScale : Int) - (maxScale - k)).toNat) := by
  rw [show (-((maxScale : Int) - k)).toNat = k - maxScale by omega,
    show ((maxScale : Int) - (maxScale - k)).toNat = k by omega]
  rfl

theorem turnDigits_zero (q k : Nat) : turnDigits q k 0 = Min.min 9 (k - maxScale) :=
  if_pos rfl

theorem turnDigits_le (q k r : Nat) : turnDigits q k r ≤ Min.min 9 k := by
  unfold turnDigits
  split
  · omega
  · exact room_le q _

theorem lt_of_turnDigits (hq : q < coeffBound) (hrest : r ≠ 0) :
    q * tenPow (turnDigits q k r) < coeffBound := by
  rw [turnDigits, if_neg hrest]
  exact lt_of_room hq

theorem le_of_turnDigits_lt (hrest : r ≠ 0) (h : turnDigits q k r < Min.min 9 k) :
    coeffBound ≤ q * tenPow (turnDigits q k r + 1) := by
  rw [turnDigits, if_neg hrest] at h ⊢
  exact le_of_room_lt h

end Turn

/-- **Long division ends with the count that the ratio is fitted to.**

By induction on the turns: each leaves the same ratio with fewer places to come (`turn_ratio`), so
what has to be shown is that it ends where the fit would. -/
theorem divide_counts (den turns : Nat) : DividesIn den turns := by
  induction turns with
  | zero => exact fun _ _ _ hk => absurd hk (Nat.not_lt_zero _)
  | succ turns ih =>
    intro q k r inexact hr hq hk
    have hden : 0 < den := by omega
    have hle := turnDigits_le q k r
    rw [divide]
    dsimp only
    rw [← turnDigits_eq]
    by_cases hends : r = 0 ∧ 0 ≤ (maxScale : Int) - k
    · obtain ⟨rfl, hplace⟩ := hends
      rw [if_pos ⟨rfl, hplace⟩]
      exact exact_counts hq hden (by omega) inexact
    rw [if_neg hends]
    by_cases hlong : r ≠ 0 ∧ (maxScale : Int) - k < maxScale ∧ turnDigits q k r < 9 ∧
        (turnDigits q k r : Int) + (maxScale - k) < 0
    · have hroom := le_of_turnDigits_lt (q := q) (k := k) hlong.1 (by omega)
      rw [if_pos hlong, fitRatio_eq_none_of_over hden (by omega) hroom]
      exact .none
    rw [if_neg hlong]
    by_cases hfull : r ≠ 0 ∧ turnDigits q k r = 0
    · rw [if_pos hfull]
      refine full_counts hr hq (by omega) fun hpos => ?_
      have hroom := le_of_turnDigits_lt (q := q) (k := k) hfull.1 (by omega)
      rwa [hfull.2] at hroom
    rw [if_neg hfull]
    have hzeros : r = 0 → 0 < turnDigits q k r ∧ turnDigits q k r + maxScale ≤ k := by
      rintro rfl
      rw [turnDigits_zero]
      omega
    by_cases hover : coeffBound ≤ q * tenPow (turnDigits q k r)
    · -- Only zeros can run past the bound; other digits are appended where there is room.
      have hzero : r = 0 := by
        by_contra hrest
        exact absurd hover (Nat.not_le.2 (lt_of_turnDigits hq hrest))
      rw [if_pos hover, fitRatio_eq_none_of_over hden (hzeros hzero).2 hover]
      exact .none
    · rw [if_neg hover]
      exact ih.append _ hr (Nat.lt_of_not_le hover) (by omega) (by omega) (by omega)

/-! ### Quotients -/

/-- Taking zeros away does not change the count. -/
theorem Quotient.Counts.strip {q : Quotient} {n : Nat} (h : q.Counts n) (count : Nat)
    (test : Nat → Bool) : (q.strip count test).Counts n := by
  unfold Quotient.strip
  split
  · rename_i hzeros
    simp only [Bool.and_eq_true, decide_eq_true_eq] at hzeros
    obtain ⟨⟨-, hscale⟩, hmod⟩ := hzeros
    obtain ⟨hlt, hle, hmul⟩ := h
    refine ⟨Nat.lt_of_le_of_lt (Nat.div_le_self _ _) hlt, Nat.le_trans (Nat.sub_le _ _) hle, ?_⟩
    dsimp only
    rw [← hmul, show maxScale - (q.scale - count) = count + (maxScale - q.scale) by omega,
      tenPow_add, ← Nat.mul_assoc, Nat.div_mul_cancel (Nat.dvd_of_mod_eq_zero hmod)]
  · exact h

theorem Quotient.Counts.stripped {q : Quotient} {n : Nat} (h : q.Counts n) :
    q.stripped.Counts n := by
  unfold Quotient.stripped
  split
  · exact ((((((h.strip 8 _).strip 8 _).strip 8 _).strip 4 _).strip 2 _).strip 1 _)
  · exact h

theorem Quotient.Counts.units_ofParts? {q : Quotient} {n : Nat} (h : q.Counts n) (negative : Bool) :
    (ofParts? (negative && q.digits != 0) q.digits q.scale).map units
      = some (signed negative n) := by
  obtain ⟨hlt, hle, hmul⟩ := h
  rw [ofParts?_of_le hlt hle, Option.map_some, units_eq]
  dsimp only
  rw [hmul]
  rcases Nat.eq_zero_or_pos q.digits with hzero | hpos
  · rw [hzero, Nat.zero_mul] at hmul
    rw [← hmul]
    cases negative <;> simp [signed]
  · rw [bne_iff_ne.2 (Nat.ne_of_gt hpos), Bool.and_true]

/-- **A quotient by a positive decimal is the rounded quotient of the counts.** -/
theorem quotient?_units (a : Decimal) {b : Decimal} (hb : zero < b) :
    (a.quotient? b).map units = roundedRatio? (a.units * tenPow maxScale) b.units.toNat := by
  have hpos : 0 < b.units.toNat := by
    rw [zero_lt_iff] at hb
    omega
  have hcount : b.units.toNat = b.coeff * tenPow (maxScale - b.scale) := by
    rw [← natAbs_units]
    omega
  have hden : 0 < b.coeff := Nat.pos_of_mul_pos_right (hcount ▸ hpos)
  unfold quotient?
  by_cases hzero : a.isZero = true
  · rw [if_pos hzero, units_eq_zero_iff.2 hzero, Int.zero_mul, roundedRatio?_zero hpos,
      Option.map_some, units_zero]
  · rw [if_neg hzero, units_eq, ← signed_mul, roundedRatio?_signed hpos]
    -- The places that the division starts with are those of the two scales.
    have hdivide := divide_counts b.coeff 58 (k := maxScale - a.scale + b.scale) (q := a.coeff / b.coeff)
      (r := a.coeff % b.coeff) false (Nat.mod_lt _ hden)
      (Nat.lt_of_le_of_lt (Nat.div_le_self _ _) a.coeff_lt)
      (by have := b.scale_le; rw [show maxScale = 28 from rfl]; omega)
    have hplaces : tenPow (maxScale - a.scale) * tenPow maxScale
        = tenPow (maxScale - a.scale + b.scale) * tenPow (maxScale - b.scale) := by
      rw [tenPow_add, Nat.mul_assoc, Nat.mul_comm (tenPow b.scale), tenPow_sub_mul b.scale_le]
    have hratio : fitRatio (a.coeff * tenPow (maxScale - a.scale + b.scale)) b.coeff
        = fitRatio (a.coeff * tenPow (maxScale - a.scale) * tenPow maxScale) b.units.toNat := by
      refine fitRatio_congr hden hpos ?_
      rw [hcount, Nat.mul_assoc a.coeff (tenPow (maxScale - a.scale)), hplaces]
      ring
    have hscale : (maxScale : Int) - (maxScale - a.scale + b.scale : Nat) = a.scale - b.scale := by
      have := a.scale_le
      rw [show maxScale = 28 from rfl]
      omega
    rw [Nat.div_add_mod', hratio, hscale] at hdivide
    rw [not_negative_of_pos hb, show (a.negative != false) = a.negative from Bool.bne_false _]
    generalize divide b.coeff 58 _ _ _ _ = ended at hdivide ⊢
    generalize fitRatio _ _ = fitted at hdivide ⊢
    cases hdivide with
    | none => rfl
    | some hcounts => exact hcounts.stripped.units_ofParts? a.negative

/-- A ratio is rounded to an even number or past it from half a unit below that number on. -/
theorem two_mul_le_roundHalfEven_iff {c n d : Nat} (hd : 0 < d) (hc : 0 < c) :
    2 * c ≤ roundHalfEven n d ↔ (4 * c - 1) * d ≤ 2 * n := by
  have hsplit := Nat.div_add_mod' n d
  have hrest := Nat.mod_lt n hd
  have hfour : (4 * c - 1) * d + d = 4 * (c * d) := by
    rw [← Nat.succ_mul, Nat.succ_eq_add_one, Nat.sub_add_cancel (by omega), Nat.mul_assoc]
  unfold roundHalfEven
  dsimp only
  rcases Nat.lt_trichotomy (n / d + 1) (2 * c) with hless | hlast | hmore
  · have hbelow := Nat.mul_le_mul_right d (show n / d + 2 ≤ 2 * c by omega)
    rw [Nat.add_mul, Nat.mul_assoc] at hbelow
    refine iff_of_false ?_ (by omega)
    split <;> omega
  · have hlast' := congrArg (· * d) hlast
    simp only [Nat.add_mul, Nat.one_mul, Nat.mul_assoc] at hlast'
    split <;> omega
  · have habove := Nat.mul_le_mul_right d (show 2 * c ≤ n / d by omega)
    rw [Nat.mul_assoc] at habove
    refine iff_of_true ?_ (by omega)
    split <;> omega

/-- A quotient has no room just where the dividend is past the bound times the divisor, less half of
the divisor. -/
theorem quotient?_eq_none_iff {a b : Decimal} (hb : zero < b) :
    a.quotient? b = none ↔ (2 * coeffBound - 1 : Nat) * b.units ≤ 2 * (a.units.natAbs : Int) := by
  obtain ⟨d, hd⟩ := Int.eq_ofNat_of_zero_le (zero_lt_iff.1 hb).le
  have hpos : 0 < d := by
    rw [zero_lt_iff] at hb
    omega
  have hround : roundHalfEven (a.units * tenPow maxScale).natAbs (d * tenPow maxScale)
      = roundHalfEven a.units.natAbs d := by
    rw [Int.natAbs_mul, Int.natAbs_natCast, roundHalfEven_mul_right (tenPow_pos _)]
  have heven := two_mul_le_roundHalfEven_iff (c := coeffBound / 2) (n := a.units.natAbs) hpos
    (by decide)
  rw [← Option.map_eq_none_iff (f := units), quotient?_units a hb, roundedRatio?,
    Option.map_eq_none_iff, fitRatio_eq_none_iff, hd, Int.toNat_natCast, hround]
  refine heven.trans ?_
  rw [← Int.natCast_mul]
  exact Int.ofNat_le.symm

/-! ### Order

The larger factor makes the larger product, and the larger dividend the larger quotient; and what
is no further from zero than something that could be computed can be computed.
-/

variable {a b c x y : Decimal} {n m : String}

theorem units_of_mul (h : a.mul b n = .ok c) :
    roundedRatio? (a.units * b.units) (tenPow maxScale) = some c.units := by
  rw [← mul?_units, orOverflow_eq_ok.1 h, Option.map_some]

theorem units_of_quotient? (h : a.quotient? b = some c) (hb : zero < b) :
    roundedRatio? (a.units * tenPow maxScale) b.units.toNat = some c.units := by
  rw [← quotient?_units a hb, h, Option.map_some]

theorem units_nonneg_of_mul (h : a.mul b n = .ok c) (ha : 0 ≤ a.units) (hb : 0 ≤ b.units) :
    0 ≤ c.units :=
  roundedRatio?_nonneg (units_of_mul h) (Int.mul_nonneg ha hb)

theorem units_nonneg_of_div (h : a.div b n = .ok c) (ha : 0 ≤ a.units) (hb : zero < b) :
    0 ≤ c.units :=
  roundedRatio?_nonneg (units_of_quotient? (quotient?_of_div h) hb)
    (Int.mul_nonneg ha (Int.natCast_nonneg _))

theorem quotient?_mono (hb : zero < b) (hac : a ≤ c) (hx : a.quotient? b = some x)
    (hy : c.quotient? b = some y) : x ≤ y := by
  have hpos : 0 < b.units.toNat := by
    rw [zero_lt_iff] at hb
    omega
  rw [le_iff_units] at hac ⊢
  refine roundedRatio?_mono hpos hpos ?_ (units_of_quotient? hx hb) (units_of_quotient? hy hb)
  exact Int.mul_le_mul_of_nonneg_right
    (Int.mul_le_mul_of_nonneg_right hac (Int.natCast_nonneg _)) (Int.natCast_nonneg _)

theorem exists_quotient? (hb : zero < b) (hac : a.units.natAbs ≤ c.units.natAbs)
    (hy : c.quotient? b = some y) : ∃ x, a.quotient? b = some x := by
  have hpos : 0 < b.units.toNat := by
    rw [zero_lt_iff] at hb
    omega
  have habs : (a.units * tenPow maxScale).natAbs * b.units.toNat
      ≤ (c.units * tenPow maxScale).natAbs * b.units.toNat := by
    rw [Int.natAbs_mul, Int.natAbs_mul]
    exact Nat.mul_le_mul_right _ (Nat.mul_le_mul_right _ hac)
  obtain ⟨t, ht⟩ := roundedRatio?_of_natAbs_le hpos hpos habs (units_of_quotient? hy hb)
  rw [← quotient?_units a hb, Option.map_eq_some_iff] at ht
  obtain ⟨x, hx, -⟩ := ht
  exact ⟨x, hx⟩

theorem mul_mono {d : Decimal} (hle : a.units * b.units ≤ c.units * d.units)
    (hx : a.mul b n = .ok x) (hy : c.mul d m = .ok y) : x ≤ y := by
  rw [le_iff_units]
  exact roundedRatio?_mono (tenPow_pos _) (tenPow_pos _)
    (Int.mul_le_mul_of_nonneg_right hle (Int.natCast_nonneg _)) (units_of_mul hx) (units_of_mul hy)

theorem exists_mul (hac : a.units.natAbs ≤ c.units.natAbs) (hy : c.mul b n = .ok y) :
    ∃ x, a.mul b n = .ok x ∧ x.units.natAbs ≤ y.units.natAbs := by
  have habs : (a.units * b.units).natAbs * tenPow maxScale
      ≤ (c.units * b.units).natAbs * tenPow maxScale := by
    rw [Int.natAbs_mul, Int.natAbs_mul]
    exact Nat.mul_le_mul_right _ (Nat.mul_le_mul_right _ hac)
  have hy' := units_of_mul hy
  obtain ⟨t, ht⟩ := roundedRatio?_of_natAbs_le (tenPow_pos _) (tenPow_pos _) habs hy'
  have hle := roundedRatio?_natAbs_mono (tenPow_pos _) (tenPow_pos _) habs ht hy'
  rw [← mul?_units, Option.map_eq_some_iff] at ht
  obtain ⟨x, hx, rfl⟩ := ht
  exact ⟨x, orOverflow_eq_ok.2 hx, hle⟩

/-! ### Whole numbers

A whole number is rounded to itself, or it has no room at all.  Sums and products of whole numbers
are exact wherever they can be computed.
-/

/-- How many units a whole number has. -/
def unitsOf (k : Int) : Int :=
  k * tenPow maxScale

@[simp] theorem unitsOf_zero : unitsOf 0 = 0 :=
  Int.zero_mul _

theorem units_ofUInt64 (k : UInt64) : (ofUInt64 k).units = unitsOf k.toNat := by
  rw [units_eq]
  simp [ofUInt64, signed, unitsOf]

theorem units_ofInt32 (k : Int32) : (ofInt32 k).units = unitsOf k.toInt := by
  unfold units scaledTo signedCoeff unitsOf ofInt32
  dsimp only
  congr 1
  split
  · rename_i hneg
    have := of_decide_eq_true hneg
    omega
  · rename_i hneg
    rw [decide_eq_true_eq] at hneg
    omega

theorem rounded?_unitsOf {k r : Int} (h : rounded? (unitsOf k) = some r) : r = unitsOf k := by
  have habs : (unitsOf k).natAbs = k.natAbs * tenPow maxScale := by
    rw [unitsOf, Int.natAbs_mul, Int.natAbs_natCast]
  rw [rounded?_eq_roundedRatio?] at h
  obtain ⟨t, ht, rfl⟩ := roundedRatio?_eq_some h
  rw [habs] at ht
  have hfits : k.natAbs < coeffBound := by
    by_contra hlarge
    rw [fitRatio_eq_none_of_le (Nat.le_refl maxScale)] at ht
    · cases ht
    · rw [Nat.sub_self, tenPow_zero, Nat.mul_one, Nat.div_one]
      exact Nat.not_lt.1 hlarge
  rw [fitRatio_exact hfits (Nat.le_refl maxScale), Option.some.injEq] at ht
  rw [← ht, ← habs, signed_natAbs]

theorem units_of_add_whole {i j : Int} (h : a.add b n = .ok c) (ha : a.units = unitsOf i)
    (hb : b.units = unitsOf j) : c.units = unitsOf (i + j) := by
  have hsum : a.units + b.units = unitsOf (i + j) := by
    rw [ha, hb, unitsOf, unitsOf, unitsOf, Int.add_mul]
  have hround := units_of_add h
  rw [hsum] at hround
  exact rounded?_unitsOf hround

theorem units_of_mul_whole {i j : Int} (h : a.mul b n = .ok c) (ha : a.units = unitsOf i)
    (hb : b.units = unitsOf j) : c.units = unitsOf (i * j) := by
  have hratio : roundedRatio? (a.units * b.units) (tenPow maxScale)
      = rounded? (unitsOf (i * j)) := by
    rw [rounded?_eq_roundedRatio?, ha, hb]
    refine roundedRatio?_congr (tenPow_pos maxScale) Nat.one_pos ?_
    unfold unitsOf
    push_cast
    ring
  have hround := units_of_mul h
  rw [hratio] at hround
  exact rounded?_unitsOf hround

end Decimal

end Clearing

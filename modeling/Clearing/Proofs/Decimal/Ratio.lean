import Clearing.Proofs.Decimal.Units

/-!
What rounding does to a ratio, said about counts of units.

Sums, products and quotients of decimals are all ratios of whole numbers that have to be fitted
into a coefficient below the bound and a scale of at most 28.  `fitRatio n d` is the count of
units that the ratio `n / d` of units is fitted to, and `roundedRatio?` the same with a sign.  A
ratio is fitted alike however it is written (`fitRatio_congr`); fitting keeps the order of ratios
(`fitRatio_mono`), and what fits leaves room for everything smaller (`fitRatio_of_le`).
-/

namespace Clearing

namespace Decimal

/-! ### Half to even -/

theorem roundHalfEven_le (n d : Nat) : roundHalfEven n d ≤ n / d + 1 := by
  unfold roundHalfEven
  dsimp only
  split
  · exact Nat.le_refl _
  · exact Nat.le_succ _

theorem roundHalfEven_mul_self {d : Nat} (hd : 0 < d) (q : Nat) : roundHalfEven (q * d) d = q := by
  unfold roundHalfEven
  dsimp only
  rw [Nat.mul_div_cancel q hd, Nat.mul_mod_left, if_neg]
  omega

theorem roundHalfEven_mul_right {c : Nat} (hc : 0 < c) (n d : Nat) :
    roundHalfEven (n * c) (d * c) = roundHalfEven n d := by
  unfold roundHalfEven
  dsimp only
  have hquot : n * c / (d * c) = n / d := Nat.mul_div_mul_right n d hc
  have hrest : n * c % (d * c) = n % d * c := Nat.mul_mod_mul_right c n d
  have hlt : d * c < 2 * (n % d * c) ↔ d < 2 * (n % d) := by
    rw [← Nat.mul_assoc, Nat.mul_lt_mul_right hc]
  have heq : 2 * (n % d * c) = d * c ↔ 2 * (n % d) = d := by
    rw [← Nat.mul_assoc]
    exact ⟨Nat.eq_of_mul_eq_mul_right hc, fun h => by rw [h]⟩
  rw [hquot, hrest]
  simp only [hlt, heq]

theorem roundHalfEven_mono {n m d : Nat} (h : n ≤ m) : roundHalfEven n d ≤ roundHalfEven m d := by
  have hquot : n / d ≤ m / d := Nat.div_le_div_right h
  rcases Nat.lt_or_eq_of_le hquot with hlt | heq
  · calc roundHalfEven n d ≤ n / d + 1 := roundHalfEven_le n d
      _ ≤ m / d := hlt
      _ ≤ roundHalfEven m d := div_le_roundHalfEven m d
  · -- With one quotient, the larger rest is rounded up whenever the smaller one is.
    have hrest : n % d ≤ m % d := by
      have hn := Nat.div_add_mod n d
      have hm := Nat.div_add_mod m d
      rw [heq] at hn
      omega
    unfold roundHalfEven
    dsimp only
    rw [heq]
    split <;> split <;> omega

/-- Rounding the bound itself to one place less leaves this many. -/
theorem roundHalfEven_coeffBound : roundHalfEven coeffBound 10 = 7922816251426433759354395034 := by
  decide

theorem roundHalfEven_coeffBound_lt : roundHalfEven coeffBound 10 < coeffBound := by
  rw [roundHalfEven_coeffBound]
  decide

/-! ### Fitting -/

/-- The fewest places that must go for `n / d` units to fit, if any number does. -/
def ratioDrop (n d : Nat) : Option Nat :=
  (List.range (maxScale + 1)).find? fun k => n / (d * tenPow k) < coeffBound

/-- The count that `n / d` units are rounded to, if there is one.  As in a fit, a carry past the
bound gives up one place more. -/
def fitRatio (n d : Nat) : Option Nat :=
  match ratioDrop n d with
  | none => none
  | some k =>
    let rounded := roundHalfEven n (d * tenPow k)
    if rounded < coeffBound then some (rounded * tenPow k)
    else if k = maxScale then none
    else some (roundHalfEven coeffBound 10 * tenPow (k + 1))

variable {n m d e k r s : Nat}

theorem ratioDrop_eq_some_iff :
    ratioDrop n d = some k ↔
      n / (d * tenPow k) < coeffBound ∧ k ≤ maxScale ∧
        ∀ j < k, coeffBound ≤ n / (d * tenPow j) := by
  unfold ratioDrop
  rw [List.find?_range_eq_some]
  simp only [decide_eq_true_eq, List.mem_range, Nat.lt_add_one_iff (n := maxScale),
    Bool.not_eq_eq_eq_not, Bool.not_true, decide_eq_false_iff_not, Nat.not_lt]

theorem div_mul_tenPow_anti {j : Nat} (h : j ≤ k) : n / (d * tenPow k) ≤ n / (d * tenPow j) := by
  rcases Nat.eq_zero_or_pos d with rfl | hd
  · simp
  · exact Nat.div_le_div_left (Nat.mul_le_mul_left d (tenPow_mono h))
      (Nat.mul_pos hd (tenPow_pos j))

theorem ratioDrop_eq_none_iff :
    ratioDrop n d = none ↔ coeffBound ≤ n / (d * tenPow maxScale) := by
  unfold ratioDrop
  rw [List.find?_range_eq_none]
  simp only [Bool.not_eq_eq_eq_not, Bool.not_true, decide_eq_false_iff_not, Nat.not_lt]
  constructor
  · intro h
    exact h maxScale (Nat.lt_succ_self _)
  · intro h j hj
    exact Nat.le_trans h (div_mul_tenPow_anti (Nat.le_of_lt_succ hj))

theorem fitRatio_eq_some_iff :
    fitRatio n d = some r ↔ ∃ k, ratioDrop n d = some k ∧
      (roundHalfEven n (d * tenPow k) < coeffBound ∧
          r = roundHalfEven n (d * tenPow k) * tenPow k ∨
        coeffBound ≤ roundHalfEven n (d * tenPow k) ∧ k < maxScale ∧
          r = roundHalfEven coeffBound 10 * tenPow (k + 1)) := by
  unfold fitRatio
  cases hdrop : ratioDrop n d with
  | none => simp
  | some k =>
    obtain ⟨-, hk, -⟩ := ratioDrop_eq_some_iff.1 hdrop
    simp only [Option.some.injEq, exists_eq_left']
    by_cases hfits : roundHalfEven n (d * tenPow k) < coeffBound
    · rw [if_pos hfits, Option.some.injEq]
      constructor
      · intro hr
        exact .inl ⟨hfits, hr.symm⟩
      · rintro (⟨-, hr⟩ | ⟨hcarry, -⟩)
        · exact hr.symm
        · omega
    · rw [if_neg hfits]
      by_cases hlast : k = maxScale
      · rw [if_pos hlast]
        constructor
        · intro h
          cases h
        · rintro (⟨hlt, -⟩ | ⟨-, hlt, -⟩) <;> omega
      · rw [if_neg hlast, Option.some.injEq]
        constructor
        · intro hr
          exact .inr ⟨by omega, by omega, hr.symm⟩
        · rintro (⟨hlt, -⟩ | ⟨-, -, hr⟩)
          · omega
          · exact hr.symm

/-- A ratio fails to fit just where its whole part, rounded, has no room. -/
theorem fitRatio_eq_none_iff :
    fitRatio n d = none ↔ coeffBound ≤ roundHalfEven n (d * tenPow maxScale) := by
  have hbound : coeffBound = 79228162514264337593543950336 := rfl
  unfold fitRatio
  cases hdrop : ratioDrop n d with
  | none =>
    have hbig := ratioDrop_eq_none_iff.1 hdrop
    exact iff_of_true rfl (Nat.le_trans hbig (div_le_roundHalfEven _ _))
  | some k =>
    obtain ⟨hfits, hk, -⟩ := ratioDrop_eq_some_iff.1 hdrop
    dsimp only
    rcases Nat.lt_or_eq_of_le hk with hlt | rfl
    · -- With a place to spare, the whole part is far from the bound.
      have hten : n / (d * tenPow (k + 1)) = n / (d * tenPow k) / 10 := by
        rw [tenPow_add, ← Nat.mul_assoc, ← Nat.div_div_eq_div_mul]
      have hless := div_mul_tenPow_anti (n := n) (d := d) (show k + 1 ≤ maxScale by omega)
      have hround := roundHalfEven_le n (d * tenPow maxScale)
      refine iff_of_false ?_ (by omega)
      split
      · exact nofun
      · rw [if_neg (by omega)]
        exact nofun
    · by_cases hround : roundHalfEven n (d * tenPow maxScale) < coeffBound
      · rw [if_pos hround]
        exact iff_of_false nofun (by omega)
      · rw [if_neg hround, if_pos rfl]
        exact iff_of_true rfl (by omega)

theorem fitRatio_of_ratioDrop_none (h : ratioDrop n d = none) : fitRatio n d = none :=
  fitRatio_eq_none_iff.2 (Nat.le_trans (ratioDrop_eq_none_iff.1 h) (div_le_roundHalfEven _ _))

/-! ### A ratio is what it is, however it is written -/

theorem mul_mul_tenPow (d c k : Nat) : d * c * tenPow k = d * tenPow k * c :=
  Nat.mul_right_comm d c (tenPow k)

theorem fitRatio_mul_right {c : Nat} (hc : 0 < c) (n d : Nat) :
    fitRatio (n * c) (d * c) = fitRatio n d := by
  have hdrop : ratioDrop (n * c) (d * c) = ratioDrop n d := by
    unfold ratioDrop
    congr 1
    funext k
    rw [mul_mul_tenPow, Nat.mul_div_mul_right _ _ hc]
  unfold fitRatio
  simp only [hdrop, mul_mul_tenPow, roundHalfEven_mul_right hc]

/-- Ratios of the same value fit alike. -/
theorem fitRatio_congr (hd : 0 < d) (he : 0 < e) (h : n * e = m * d) :
    fitRatio n d = fitRatio m e := by
  rw [← fitRatio_mul_right he n d, ← fitRatio_mul_right hd m e, h, Nat.mul_comm d e]

/-- What has room as it is, with zeros behind it, is left alone. -/
theorem fitRatio_exact {q j : Nat} (hq : q < coeffBound) (hj : j ≤ maxScale) :
    fitRatio (q * tenPow j) 1 = some (q * tenPow j) := by
  have hcut : q * tenPow j / (1 * tenPow j) = q := by
    rw [Nat.one_mul, Nat.mul_div_cancel q (tenPow_pos j)]
  cases hdrop : ratioDrop (q * tenPow j) 1 with
  | none =>
    have hbig := ratioDrop_eq_none_iff.1 hdrop
    have hless := div_mul_tenPow_anti (n := q * tenPow j) (d := 1) hj
    omega
  | some k =>
    obtain ⟨hfits, hks, hmin⟩ := ratioDrop_eq_some_iff.1 hdrop
    have hkj : k ≤ j := by
      by_contra hcon
      have := hmin j (by omega)
      omega
    -- The places that go hold zeros, so the rounding is a division without rest.
    have hsplit : q * tenPow j = q * tenPow (j - k) * tenPow k := by
      rw [Nat.mul_assoc, tenPow_sub_mul hkj]
    have hround : roundHalfEven (q * tenPow j) (1 * tenPow k) = q * tenPow (j - k) := by
      rw [Nat.one_mul, hsplit, roundHalfEven_mul_self (tenPow_pos k)]
    rw [Nat.one_mul, hsplit, Nat.mul_div_cancel _ (tenPow_pos k)] at hfits
    refine fitRatio_eq_some_iff.2 ⟨k, hdrop, .inl ⟨?_, ?_⟩⟩
    · rwa [hround]
    · rw [hround, hsplit]

/-! ### Order -/

/-- Fitting reaches at least as far as the places it keeps. -/
theorem roundHalfEven_mul_le_fitRatio (h : fitRatio n d = some r) (hdrop : ratioDrop n d = some k) :
    roundHalfEven n (d * tenPow k) * tenPow k ≤ r := by
  obtain ⟨k', hdrop', hform⟩ := fitRatio_eq_some_iff.1 h
  obtain rfl : k = k' := Option.some.inj (hdrop.symm.trans hdrop')
  rcases hform with ⟨-, rfl⟩ | ⟨hge, -, rfl⟩
  · exact Nat.le_refl _
  · -- The coefficient reached the bound itself, which ten of the next place exceed.
    obtain ⟨hfits, -, -⟩ := ratioDrop_eq_some_iff.1 hdrop
    have hat := roundHalfEven_le n (d * tenPow k)
    have hbound : coeffBound = 79228162514264337593543950336 := rfl
    rw [roundHalfEven_coeffBound, tenPow_add, show tenPow 1 = 10 from rfl,
      Nat.mul_comm (tenPow k), ← Nat.mul_assoc]
    exact Nat.mul_le_mul_right _ (by omega)

/-- Fitting stays below ten times the bound's own rounding, in the places it keeps. -/
theorem fitRatio_le (h : fitRatio n d = some r) (hdrop : ratioDrop n d = some k) :
    r ≤ roundHalfEven coeffBound 10 * tenPow (k + 1) := by
  obtain ⟨k', hdrop', hform⟩ := fitRatio_eq_some_iff.1 h
  obtain rfl : k = k' := Option.some.inj (hdrop.symm.trans hdrop')
  rcases hform with ⟨hlt, rfl⟩ | ⟨-, -, rfl⟩
  · have hbound : coeffBound = 79228162514264337593543950336 := rfl
    rw [roundHalfEven_coeffBound, tenPow_add, show tenPow 1 = 10 from rfl,
      Nat.mul_comm (tenPow k), ← Nat.mul_assoc]
    exact Nat.mul_le_mul_right _ (by omega)
  · exact Nat.le_refl _

theorem fitRatio_mono_left (h : n ≤ m) (hn : fitRatio n d = some r) (hm : fitRatio m d = some s) :
    r ≤ s := by
  obtain ⟨j, hj, hjr⟩ := fitRatio_eq_some_iff.1 hn
  obtain ⟨k, hk, hks⟩ := fitRatio_eq_some_iff.1 hm
  obtain ⟨-, -, hjmin⟩ := ratioDrop_eq_some_iff.1 hj
  obtain ⟨hkfits, -, hkmin⟩ := ratioDrop_eq_some_iff.1 hk
  have hjk : j ≤ k := by
    by_contra hcon
    have hbig := Nat.le_trans (hjmin k (by omega)) (Nat.div_le_div_right h)
    exact absurd hkfits (Nat.not_lt.2 hbig)
  rcases Nat.lt_or_eq_of_le hjk with hlt | rfl
  · -- The larger ratio gives up more places, so it is past everything the smaller can reach.
    have hmin := hkmin (k - 1) (by omega)
    have hd : 0 < d * tenPow (k - 1) := by
      refine Nat.pos_of_ne_zero fun hzero => ?_
      rw [hzero, Nat.div_zero] at hmin
      exact absurd hmin (by decide)
    have hpast : coeffBound * (d * tenPow (k - 1)) ≤ m := (Nat.le_div_iff_mul_le hd).1 hmin
    have hten : d * tenPow k = 10 * (d * tenPow (k - 1)) := by
      rw [show k = (k - 1) + 1 by omega, tenPow_add, show tenPow 1 = 10 from rfl,
        Nat.add_sub_cancel, ← Nat.mul_assoc, Nat.mul_comm]
    have hround : roundHalfEven coeffBound 10 ≤ roundHalfEven m (d * tenPow k) := by
      rw [hten, ← roundHalfEven_mul_right hd coeffBound 10]
      exact roundHalfEven_mono hpast
    calc r ≤ roundHalfEven coeffBound 10 * tenPow (j + 1) := fitRatio_le hn hj
      _ ≤ roundHalfEven m (d * tenPow k) * tenPow k := Nat.mul_le_mul hround (tenPow_mono hlt)
      _ ≤ s := roundHalfEven_mul_le_fitRatio hm hk
  · have hround := roundHalfEven_mono (d := d * tenPow j) h
    rcases hjr with ⟨-, rfl⟩ | ⟨hge, -, rfl⟩
    · exact Nat.le_trans (Nat.mul_le_mul_right _ hround) (roundHalfEven_mul_le_fitRatio hm hk)
    · rcases hks with ⟨hlt, -⟩ | ⟨-, -, rfl⟩
      · omega
      · exact Nat.le_refl _

/-- **Fitting keeps the order of ratios.** -/
theorem fitRatio_mono (hd : 0 < d) (he : 0 < e) (h : n * e ≤ m * d) (hn : fitRatio n d = some r)
    (hm : fitRatio m e = some s) : r ≤ s := by
  rw [← fitRatio_mul_right he] at hn
  rw [← fitRatio_mul_right hd, Nat.mul_comm e d] at hm
  exact fitRatio_mono_left h hn hm

/-- A ratio fits if a larger one does. -/
theorem fitRatio_of_le (hd : 0 < d) (he : 0 < e) (h : n * e ≤ m * d) (hm : fitRatio m e = some s) :
    ∃ r, fitRatio n d = some r := by
  rw [← fitRatio_mul_right hd, Nat.mul_comm e d] at hm
  rw [← fitRatio_mul_right he]
  cases hn : fitRatio (n * e) (d * e) with
  | some r => exact ⟨r, rfl⟩
  | none =>
    have hbig := Nat.le_trans (fitRatio_eq_none_iff.1 hn) (roundHalfEven_mono h)
    rw [fitRatio_eq_none_iff.2 hbig] at hm
    cases hm

/-! ### With a sign -/

/-- The count of units that the ratio `n / d` of units is rounded to, if there is one. -/
def roundedRatio? (n : Int) (d : Nat) : Option Int :=
  (fitRatio n.natAbs d).map (signed (decide (n < 0)))

theorem signed_natAbs (n : Int) : signed (decide (n < 0)) n.natAbs = n := by
  unfold signed
  by_cases h : n < 0
  · rw [if_pos (by simpa using h)]
    omega
  · rw [if_neg (by simpa using h)]
    omega

theorem fitRatio_zero (hd : 0 < d) : fitRatio 0 d = some 0 := by
  have h := fitRatio_exact (q := 0) (j := 0) (by decide) (Nat.zero_le maxScale)
  rw [Nat.zero_mul] at h
  rw [← h]
  exact fitRatio_congr hd Nat.one_pos (by simp)

/-- The sign of a zero makes no difference. -/
theorem roundedRatio?_signed (hd : 0 < d) (negative : Bool) (n : Nat) :
    roundedRatio? (signed negative n) d = (fitRatio n d).map (signed negative) := by
  unfold roundedRatio?
  rw [natAbs_signed]
  rcases Nat.eq_zero_or_pos n with rfl | hn
  · rw [fitRatio_zero hd]
    cases negative <;> rfl
  · congr 2
    cases negative with
    | false => simp [signed]
    | true => simp [signed, hn]

variable {p q t u : Int}

theorem roundedRatio?_eq_some (h : roundedRatio? p d = some t) :
    ∃ r, fitRatio p.natAbs d = some r ∧ t = signed (decide (p < 0)) r := by
  obtain ⟨r, hr, rfl⟩ := Option.map_eq_some_iff.1 h
  exact ⟨r, hr, rfl⟩

theorem roundedRatio?_congr (hd : 0 < d) (he : 0 < e) (h : p * e = q * d) :
    roundedRatio? p d = roundedRatio? q e := by
  have habs : p.natAbs * e = q.natAbs * d := by
    have := congrArg Int.natAbs h
    rwa [Int.natAbs_mul, Int.natAbs_mul, Int.natAbs_natCast, Int.natAbs_natCast] at this
  have hsign : p < 0 ↔ q < 0 := by
    have hd' : (0 : Int) < d := by omega
    have he' : (0 : Int) < e := by omega
    constructor
    · intro hp
      exact Int.neg_of_mul_neg_left (h ▸ Int.mul_neg_of_neg_of_pos hp he') hd'
    · intro hq
      exact Int.neg_of_mul_neg_left (h ▸ Int.mul_neg_of_neg_of_pos hq hd') he'
  unfold roundedRatio?
  rw [fitRatio_congr hd he habs, decide_eq_decide.2 hsign]

theorem roundedRatio?_nonneg (h : roundedRatio? p d = some t) (hp : 0 ≤ p) : 0 ≤ t := by
  obtain ⟨r, -, rfl⟩ := roundedRatio?_eq_some h
  rw [decide_eq_false (by omega)]
  exact Int.natCast_nonneg r

theorem roundedRatio?_nonpos (hd : 0 < d) (h : roundedRatio? p d = some t) (hp : p ≤ 0) :
    t ≤ 0 := by
  obtain ⟨r, hr, rfl⟩ := roundedRatio?_eq_some h
  rcases Int.lt_or_eq_of_le hp with hneg | rfl
  · rw [decide_eq_true hneg]
    simp only [signed, if_true]
    omega
  · rw [Int.natAbs_zero, fitRatio_zero hd, Option.some.injEq] at hr
    rw [← hr]
    exact Int.le_refl 0

/-- **Rounding keeps the order of ratios.** -/
theorem roundedRatio?_mono (hd : 0 < d) (he : 0 < e) (h : p * e ≤ q * d)
    (hp : roundedRatio? p d = some t) (hq : roundedRatio? q e = some u) : t ≤ u := by
  have hd' : (0 : Int) < d := by omega
  have he' : (0 : Int) < e := by omega
  rcases Int.lt_or_le p 0 with hneg | hnonneg
  · have ht := roundedRatio?_nonpos hd hp (by omega)
    rcases Int.lt_or_le q 0 with hqneg | hqnonneg
    · -- Among negative ratios the smaller one is the larger in absolute value.
      obtain ⟨r, hr, rfl⟩ := roundedRatio?_eq_some hp
      obtain ⟨s, hs, rfl⟩ := roundedRatio?_eq_some hq
      have habs : q.natAbs * d ≤ p.natAbs * e := by
        rw [← Int.ofNat_le, Int.natCast_mul, Int.natCast_mul,
          show (p.natAbs : Int) = -p by omega, show (q.natAbs : Int) = -q by omega,
          Int.neg_mul, Int.neg_mul]
        omega
      have := fitRatio_mono he hd habs hs hr
      rw [decide_eq_true hneg, decide_eq_true hqneg]
      simp only [signed, if_true]
      omega
    · exact Int.le_trans ht (roundedRatio?_nonneg hq hqnonneg)
  · have hqnonneg : 0 ≤ q := by
      by_contra hcon
      have h1 : 0 ≤ p * e := Int.mul_nonneg hnonneg (Int.le_of_lt he')
      have h2 : q * d < 0 := Int.mul_neg_of_neg_of_pos (by omega) hd'
      omega
    obtain ⟨r, hr, rfl⟩ := roundedRatio?_eq_some hp
    obtain ⟨s, hs, rfl⟩ := roundedRatio?_eq_some hq
    have habs : p.natAbs * e ≤ q.natAbs * d := by
      rwa [← Int.ofNat_le, Int.natCast_mul, Int.natCast_mul, Int.natAbs_of_nonneg hnonneg,
        Int.natAbs_of_nonneg hqnonneg]
    have := fitRatio_mono hd he habs hr hs
    rw [decide_eq_false (by omega), decide_eq_false (by omega)]
    simp only [signed, Bool.false_eq_true, if_false]
    omega

/-- The further a ratio is from zero, the further is what it is rounded to. -/
theorem roundedRatio?_natAbs_mono (hd : 0 < d) (he : 0 < e)
    (h : p.natAbs * e ≤ q.natAbs * d) (hp : roundedRatio? p d = some t)
    (hq : roundedRatio? q e = some u) : t.natAbs ≤ u.natAbs := by
  obtain ⟨r, hr, rfl⟩ := roundedRatio?_eq_some hp
  obtain ⟨s, hs, rfl⟩ := roundedRatio?_eq_some hq
  rw [natAbs_signed, natAbs_signed]
  exact fitRatio_mono hd he h hr hs

/-- A ratio is rounded to some count if one further from zero is. -/
theorem roundedRatio?_of_natAbs_le (hd : 0 < d) (he : 0 < e) (h : p.natAbs * e ≤ q.natAbs * d)
    (hq : roundedRatio? q e = some u) : ∃ t, roundedRatio? p d = some t := by
  obtain ⟨s, hs, -⟩ := roundedRatio?_eq_some hq
  obtain ⟨r, hr⟩ := fitRatio_of_le hd he h hs
  exact ⟨_, by rw [roundedRatio?, hr, Option.map_some]⟩

end Decimal

end Clearing

import Clearing.Funding.Rate
import Clearing.Proofs.Decimal.Signs
import Mathlib.Algebra.Order.Ring.Int

/-!
The rate that open interest leads to.

Five roundings stand between the two sides and their rate: of their sum, of their difference, of
the share of the one in the other, of that share of the maximum, and the cut to whole basis
points.  `LeadsTo` has them in a row, in counts of units and without a check.  Each figure is
bounded by the one before, through every rounding: the difference by the sum, so the share by one,
so the rate by its maximum.  That is why none of the checks after the sum can fail and holding the
rate between its bounds changes nothing (`fundingRate_leadsTo`).  What is said of rates is then
said of `LeadsTo`, where turning the two sides around turns every sign around (`LeadsTo.swap`).
-/

namespace Clearing

open Decimal

/-- The same with the two sides in each other's place. -/
def OpenInterest.swap (oi : OpenInterest) : OpenInterest :=
  ⟨oi.short, oi.long⟩

/-- A rate as a decimal counts as a whole number of ones. -/
theorem Bps.units_toDecimal (b : Bps) : b.toDecimal.units = unitsOf b.toInt :=
  units_ofInt32 b.val

theorem Bps.representable (b : Bps) : Representable (unitsOf b.toInt) :=
  ⟨b.toDecimal, b.units_toDecimal⟩

theorem Bps.ext_toInt {a b : Bps} (h : a.toInt = b.toInt) : a = b :=
  Bps.ext (Int32.toInt_inj.1 h)

/-- A rate fits where it is no further from zero than one that does. -/
theorem Bps.ofTruncated?_of_le {d : Decimal} {bound : Bps}
    (h : d.truncToInt.natAbs ≤ bound.toInt.natAbs) (hbound : 0 ≤ bound.toInt) :
    ∃ rate, Bps.ofTruncated? d = some rate ∧ rate.toInt = d.truncToInt := by
  have hlt : bound.toInt < 2147483648 := bound.val.toInt_lt
  have hfits : -2147483648 ≤ d.truncToInt ∧ d.truncToInt ≤ 2147483647 := by omega
  refine ⟨⟨Int32.ofInt d.truncToInt⟩, if_pos hfits, ?_⟩
  exact Int32.toInt_ofInt_of_le hfits.1 (by omega)

namespace Decimal

theorem units_clamp (d bound : Decimal) :
    (d.clamp bound).units = Min.min (Max.max d.units (-bound.units)) bound.units := by
  rw [clamp, units_min, units_max, units_neg]

/-- What is within its bounds is not moved. -/
theorem units_clamp_of_le {d bound : Decimal} (h : d.units.natAbs ≤ bound.units.natAbs)
    (hbound : 0 ≤ bound.units) : (d.clamp bound).units = d.units := by
  rw [units_clamp]
  omega

end Decimal

/-- How open interest leads to a rate, in counts of units. -/
inductive LeadsTo (oi : OpenInterest) (maxRate : Bps) : Int → Prop
  | balanced (htotal : rounded? (oi.long.units + oi.short.units) = some 0) : LeadsTo oi maxRate 0
  | leaning {total skew imbalance raw : Int}
      (htotal : rounded? (oi.long.units + oi.short.units) = some total) (hpos : 0 < total)
      (hskew : rounded? (oi.long.units - oi.short.units) = some skew)
      (himbalance : roundedRatio? (skew * tenPow maxScale) total.toNat = some imbalance)
      (hraw : roundedRatio? (imbalance * unitsOf maxRate.toInt) (tenPow maxScale) = some raw) :
      LeadsTo oi maxRate (raw.tdiv (tenPow maxScale))

variable {oi : OpenInterest} {maxRate : Bps} {r s : Int}

/-! ### The figures on the way -/

section Figures

variable {total skew imbalance raw : Int}

/-- The share of the imbalance is at most the whole. -/
theorem exists_imbalance (hpos : 0 < total) (hskew : skew.natAbs ≤ total.natAbs) :
    ∃ imbalance, roundedRatio? (skew * tenPow maxScale) total.toNat = some imbalance ∧
      imbalance.natAbs ≤ tenPow maxScale := by
  refine exists_roundedRatio?_le (by omega) (representable_units one) ?_
  rw [Int.natAbs_mul, Int.natAbs_natCast, show one.units.natAbs = tenPow maxScale from rfl,
    Nat.mul_comm]
  exact Nat.mul_le_mul_left _ (by omega)

/-- A share of the maximum is at most the maximum. -/
theorem exists_raw (maxRate : Bps) (himbalance : imbalance.natAbs ≤ tenPow maxScale) :
    ∃ raw, roundedRatio? (imbalance * unitsOf maxRate.toInt) (tenPow maxScale) = some raw ∧
      raw.natAbs ≤ (unitsOf maxRate.toInt).natAbs := by
  refine exists_roundedRatio?_le (tenPow_pos _) maxRate.representable ?_
  rw [Int.natAbs_mul, Nat.mul_comm]
  exact Nat.mul_le_mul_left _ himbalance

theorem natAbs_tdiv_le (h : raw.natAbs ≤ (unitsOf maxRate.toInt).natAbs) :
    (raw.tdiv (tenPow maxScale)).natAbs ≤ maxRate.toInt.natAbs := by
  rw [unitsOf, Int.natAbs_mul, Int.natAbs_natCast] at h
  rw [Int.natAbs_tdiv, Int.natAbs_natCast]
  exact Nat.div_le_of_le_mul (by rwa [Nat.mul_comm])

/-- What is within the maximum is not moved when it is held between the bounds, and its whole part
is a rate. -/
theorem exists_rate {raw : Decimal} (hmax : 0 ≤ maxRate.toInt)
    (h : raw.units.natAbs ≤ (unitsOf maxRate.toInt).natAbs) :
    ∃ rate, Bps.ofTruncated? (raw.clamp maxRate.toDecimal) = some rate ∧
      rate.toInt = raw.units.tdiv (tenPow maxScale) := by
  have hcut : (raw.clamp maxRate.toDecimal).truncToInt = raw.units.tdiv (tenPow maxScale) := by
    rw [truncToInt_eq_tdiv, units_clamp_of_le]
    · rwa [maxRate.units_toDecimal]
    · rw [maxRate.units_toDecimal]
      exact Int.mul_nonneg hmax (Int.natCast_nonneg _)
  obtain ⟨rate, hrate, htoInt⟩ := Bps.ofTruncated?_of_le (hcut ▸ natAbs_tdiv_le h) hmax
  exact ⟨rate, hrate, htoInt.trans hcut⟩

end Figures

/-! ### The rate -/

/-- **The rate exists once the sum does, and it is what the figures lead to.** -/
theorem fundingRate_leadsTo (hlong : zero ≤ oi.long) (hshort : zero ≤ oi.short)
    (hmax : 0 ≤ maxRate.toInt) {total : Decimal} (htotal : oi.long.add? oi.short = some total) :
    ∃ rate, fundingRate oi maxRate = .ok rate ∧ LeadsTo oi maxRate rate.toInt := by
  rw [le_iff_units, units_zero] at hlong hshort
  have hsum := add?_units oi.long oi.short
  rw [htotal, Option.map_some] at hsum
  have hadd : oi.long.add oi.short "funding total oi" = .ok total := orOverflow_eq_ok.2 htotal
  have hnonneg := rounded?_nonneg hsum.symm (by omega)
  unfold fundingRate
  simp only [bind_eq_ok, refusing_eq_ok, hadd, Except.ok.injEq, exists_eq_left']
  by_cases hzero : total.isZero = true
  · rw [units_eq_zero_iff.2 hzero] at hsum
    rw [if_pos hzero]
    exact ⟨.zero, rfl, .balanced hsum.symm⟩
  · have hpos : 0 < total.units := by
      have := mt units_eq_zero_iff.1 hzero
      omega
    -- Every figure is bounded by the one before, so each of them can be computed.
    obtain ⟨_, hskew, hskewLe⟩ := exists_rounded?_sub_le hlong hshort hsum.symm
    obtain ⟨_, himbalance, himbalanceLe⟩ := exists_imbalance hpos hskewLe
    obtain ⟨_, hraw, hrawLe⟩ := exists_raw maxRate himbalanceLe
    have hleads := LeadsTo.leaning hsum.symm hpos hskew himbalance hraw
    obtain ⟨skew, hsub, rfl⟩ := Option.map_eq_some_iff.1 ((sub?_units ..).trans hskew)
    obtain ⟨imbalance, hquotient, rfl⟩ :=
      Option.map_eq_some_iff.1 ((quotient?_units skew (zero_lt_iff.2 hpos)).trans himbalance)
    rw [← maxRate.units_toDecimal] at hraw
    obtain ⟨raw, hproduct, rfl⟩ := Option.map_eq_some_iff.1 ((mul?_units ..).trans hraw)
    obtain ⟨rate, hrate, htoInt⟩ := exists_rate hmax hrawLe
    refine ⟨rate, ?_, by rwa [htoInt]⟩
    rw [if_neg hzero]
    simp only [bind_eq_ok, refusing_eq_ok]
    refine ⟨skew, ?_, imbalance, ?_, raw, orOverflow_eq_ok.2 hproduct, ?_⟩
    · rw [subOrStop, hsub]
    · rw [div, if_neg hzero]
      exact orOverflow_eq_ok.2 hquotient
    · rw [hrate]
      rfl

/-- Where the sum has no room, that is the refusal. -/
theorem fundingRate_refused (maxRate : Bps) (h : oi.long.add? oi.short = none) :
    fundingRate oi maxRate = .error (.refused (.overflow "funding total oi")) := by
  unfold fundingRate
  rw [add, h]
  rfl

namespace LeadsTo

theorem unique (hr : LeadsTo oi maxRate r) (hs : LeadsTo oi maxRate s) : r = s := by
  cases hr with
  | balanced htotal =>
    cases hs with
    | balanced => rfl
    | leaning htotal' hpos =>
      rw [htotal, Option.some.injEq] at htotal'
      omega
  | leaning htotal hpos hskew himbalance hraw =>
    cases hs with
    | balanced htotal' =>
      rw [htotal, Option.some.injEq] at htotal'
      omega
    | leaning htotal' hpos' hskew' himbalance' hraw' =>
      obtain rfl := Option.some.inj (htotal.symm.trans htotal')
      obtain rfl := Option.some.inj (hskew.symm.trans hskew')
      obtain rfl := Option.some.inj (himbalance.symm.trans himbalance')
      rw [Option.some.inj (hraw.symm.trans hraw')]

/-- **The sides in each other's place have the opposite rate.** -/
theorem swap (h : LeadsTo oi maxRate r) : LeadsTo oi.swap maxRate (-r) := by
  cases h with
  | balanced htotal => exact .balanced (Int.add_comm _ _ ▸ htotal)
  | @leaning total skew imbalance raw htotal hpos hskew himbalance hraw =>
    rw [← Int.neg_tdiv]
    refine @leaning oi.swap maxRate total (-skew) (-imbalance) (-raw) (Int.add_comm _ _ ▸ htotal)
      hpos ?_ ?_ ?_
    · rw [← Int.neg_sub, rounded?_neg]
      exact congrArg (Option.map (- ·)) hskew
    · rw [Int.neg_mul, roundedRatio?_neg (by omega), himbalance, Option.map_some]
    · rw [Int.neg_mul, roundedRatio?_neg (tenPow_pos _), hraw, Option.map_some]

theorem natAbs_le (h : LeadsTo oi maxRate r) (hlong : 0 ≤ oi.long.units)
    (hshort : 0 ≤ oi.short.units) : r.natAbs ≤ maxRate.toInt.natAbs := by
  cases h with
  | balanced => exact Nat.zero_le _
  | leaning htotal hpos hskew himbalance hraw =>
    obtain ⟨_, hskew', hskewLe⟩ := exists_rounded?_sub_le hlong hshort htotal
    obtain rfl := Option.some.inj (hskew.symm.trans hskew')
    obtain ⟨_, himbalance', himbalanceLe⟩ := exists_imbalance hpos hskewLe
    obtain rfl := Option.some.inj (himbalance.symm.trans himbalance')
    obtain ⟨_, hraw', hrawLe⟩ := exists_raw maxRate himbalanceLe
    obtain rfl := Option.some.inj (hraw.symm.trans hraw')
    exact natAbs_tdiv_le hrawLe

/-- **Only the heavier side pays**: no rounding makes up a sign. -/
theorem lt_of_pos (h : LeadsTo oi maxRate r) (hmax : 0 ≤ maxRate.toInt) (hr : 0 < r) :
    oi.short.units < oi.long.units := by
  cases h with
  | balanced => omega
  | @leaning total skew imbalance raw htotal hpos hskew himbalance hraw =>
    have hten : (0 : Int) ≤ tenPow maxScale := Int.natCast_nonneg _
    have hraw0 : 0 < raw := by
      by_contra hle
      have := Int.tdiv_nonneg (Int.neg_nonneg_of_nonpos (Int.not_lt.1 hle)) hten
      rw [Int.neg_tdiv] at this
      omega
    have hproduct := pos_of_roundedRatio? (tenPow_pos _) hraw hraw0
    have hshare := pos_of_roundedRatio? (by omega) himbalance
      (pos_of_mul_pos_left hproduct (Int.mul_nonneg hmax hten))
    have hskew0 := pos_of_mul_pos_left hshare hten
    rw [rounded?_eq_roundedRatio?] at hskew
    have := pos_of_roundedRatio? Nat.one_pos hskew hskew0
    omega

theorem lt_of_neg (h : LeadsTo oi maxRate r) (hmax : 0 ≤ maxRate.toInt) (hr : r < 0) :
    oi.long.units < oi.short.units :=
  h.swap.lt_of_pos hmax (by omega)

/-- One side alone pays the maximum. -/
theorem eq_max (h : LeadsTo oi maxRate r) (hlong : 0 < oi.long.units)
    (hshort : oi.short.units = 0) : r = maxRate.toInt := by
  cases h with
  | balanced htotal =>
    rw [hshort, Int.add_zero, rounded?_units, Option.some.injEq] at htotal
    omega
  | leaning htotal hpos hskew himbalance hraw =>
    rw [hshort, Int.add_zero, rounded?_units, Option.some.injEq] at htotal
    rw [hshort, Int.sub_zero, rounded?_units, Option.some.injEq] at hskew
    subst htotal hskew
    have hone : roundedRatio? (oi.long.units * tenPow maxScale) oi.long.units.toNat
        = some (tenPow maxScale : Int) := by
      have hself := roundedRatio?_mul_self (d := oi.long.units.toNat) (by omega)
        (representable_units one)
      rw [Int.toNat_of_nonneg (by omega), Int.mul_comm] at hself
      exact hself
    rw [hone, Option.some.injEq] at himbalance
    rw [← himbalance, Int.mul_comm, roundedRatio?_mul_self (tenPow_pos _) maxRate.representable,
      Option.some.injEq] at hraw
    rw [← hraw]
    exact Int.mul_tdiv_cancel _ (by have := tenPow_pos maxScale; omega)

theorem eq_neg_max (h : LeadsTo oi maxRate r) (hlong : oi.long.units = 0)
    (hshort : 0 < oi.short.units) : r = -maxRate.toInt := by
  have := h.swap.eq_max hshort hlong
  omega

end LeadsTo

/-! ### What holds of rates -/

/-- What holds of the rate that open interest leads to: it is within its bounds, the heavier side
pays it, and one side alone pays all of it. -/
structure FairRate (oi : OpenInterest) (maxRate rate : Bps) : Prop where
  neg_max_le : -maxRate.toInt ≤ rate.toInt
  le_max : rate.toInt ≤ maxRate.toInt
  long_pays : 0 < rate.toInt → oi.short < oi.long
  short_pays : rate.toInt < 0 → oi.long < oi.short
  only_long : zero < oi.long → oi.short.isZero = true → rate = maxRate
  only_short : oi.long.isZero = true → zero < oi.short → rate.toInt = -maxRate.toInt

theorem LeadsTo.fair {rate : Bps} (h : LeadsTo oi maxRate rate.toInt) (hlong : zero ≤ oi.long)
    (hshort : zero ≤ oi.short) (hmax : 0 ≤ maxRate.toInt) : FairRate oi maxRate rate := by
  rw [le_iff_units, units_zero] at hlong hshort
  have hle := h.natAbs_le hlong hshort
  exact {
    neg_max_le := by omega
    le_max := by omega
    long_pays := fun hpos => lt_iff_units.2 (h.lt_of_pos hmax hpos)
    short_pays := fun hneg => lt_iff_units.2 (h.lt_of_neg hmax hneg)
    only_long := fun hpos hzero =>
      Bps.ext_toInt (h.eq_max (zero_lt_iff.1 hpos) (units_eq_zero_iff.2 hzero))
    only_short := fun hzero hpos =>
      h.eq_neg_max (units_eq_zero_iff.2 hzero) (zero_lt_iff.1 hpos) }

theorem add?_comm_none {a b : Decimal} (h : a.add? b = none) : b.add? a = none := by
  have hsum := add?_units a b
  rw [h, Int.add_comm, ← add?_units b a] at hsum
  exact Option.map_eq_none_iff.1 hsum.symm

/-- **The rate of open interest.**  Where neither side is below zero and the maximum is not, all
that can fail is the sum of the two sides, and that is a refusal with this name.  Otherwise there
is a rate, it is fair, and with the sides in each other's place it is the opposite one. -/
theorem fundingRate_fair (hlong : zero ≤ oi.long) (hshort : zero ≤ oi.short)
    (hmax : 0 ≤ maxRate.toInt) :
    (oi.long.add? oi.short = none ∧
      fundingRate oi maxRate = .error (.refused (.overflow "funding total oi")) ∧
      fundingRate oi.swap maxRate = .error (.refused (.overflow "funding total oi"))) ∨
    ∃ rate opposite,
      fundingRate oi maxRate = .ok rate ∧ FairRate oi maxRate rate ∧
      fundingRate oi.swap maxRate = .ok opposite ∧ opposite.toInt = -rate.toInt := by
  cases htotal : oi.long.add? oi.short with
  | none =>
    exact .inl ⟨rfl, fundingRate_refused maxRate htotal,
      fundingRate_refused maxRate (add?_comm_none htotal)⟩
  | some total =>
    obtain ⟨rate, hrate, hleads⟩ := fundingRate_leadsTo hlong hshort hmax htotal
    cases hswapped : oi.swap.long.add? oi.swap.short with
    | none => cases (add?_comm_none hswapped).symm.trans htotal
    | some total' =>
      obtain ⟨opposite, hopposite, hback⟩ := fundingRate_leadsTo hshort hlong hmax hswapped
      exact .inr ⟨rate, opposite, hrate, hleads.fair hlong hshort hmax, hopposite,
        hback.unique hleads.swap⟩

/-- Three long against one short: half of the maximum, and half of it the other way round. -/
theorem fundingRate_fair_three_to_one :
    ∃ opposite,
      fundingRate ⟨ofUInt32 3, ofUInt32 1⟩ ⟨300⟩ = .ok ⟨150⟩ ∧
      FairRate ⟨ofUInt32 3, ofUInt32 1⟩ ⟨300⟩ ⟨150⟩ ∧
      fundingRate ⟨ofUInt32 1, ofUInt32 3⟩ ⟨300⟩ = .ok opposite ∧ opposite.toInt = -150 := by
  have hrate : fundingRate ⟨ofUInt32 3, ofUInt32 1⟩ ⟨300⟩ = .ok ⟨150⟩ := by decide +kernel
  rcases @fundingRate_fair ⟨ofUInt32 3, ofUInt32 1⟩ ⟨300⟩ (by decide) (by decide) (by decide)
    with ⟨-, hfails, -⟩ | ⟨rate, opposite, hok, hfair, hback, hneg⟩
  · cases hrate.symm.trans hfails
  · cases hrate.symm.trans hok
    exact ⟨opposite, hrate, hfair, hback, hneg⟩

end Clearing

import Clearing.Proofs.Ledger.Portfolios
import Clearing.Proofs.Ledger.Unchecked

/-!
What a margin ratio says of equity.

The ratio is a rounded quotient, so it keeps the order and the sign of equity wherever it is a
decimal.  Where it is not, it falls back to the largest decimal, and it does so at both ends: for
equity that is far above its notional value and for equity that is as far below zero.  The latter is
`Sunk`, and it is the one thing that turns the order and the sign of ratios around
(`marginRatio_lt_iff`, `zero_lt_marginRatio_iff`).  A portfolio has one more way to look safe with
equity below zero, which is a notional value that was rounded to nothing.
-/

namespace Clearing

open Decimal

/-! ### Ratios -/

/-- Equity is so far below zero that its ratio is no decimal. -/
def Sunk (equity : Amount) (notional : Decimal) : Prop :=
  (2 * coeffBound - 1 : Nat) * notional.units ≤ -(2 * equity.units)

instance (equity : Amount) (notional : Decimal) : Decidable (Sunk equity notional) :=
  inferInstanceAs (Decidable (_ ≤ (_ : Int)))

section Ratio

variable {equity equity' notional : Decimal}

/-- With exposure, a ratio is the rounded quotient or the largest decimal. -/
theorem marginRatio_eq (hnotional : zero < notional) :
    marginRatio equity notional = (equity.quotient? notional).getD .greatest := by
  have hsome : ¬ notional.isZero = true := by
    rw [← units_eq_zero_iff]
    rw [zero_lt_iff] at hnotional
    omega
  rw [marginRatio, if_neg hsome, div?, if_neg hsome]

theorem Sunk.equity_neg (h : Sunk equity notional) (hnotional : zero < notional) :
    equity.units < 0 := by
  rw [zero_lt_iff] at hnotional
  have hbound := Int.mul_pos (show (0 : Int) < (2 * coeffBound - 1 : Nat) by decide) hnotional
  unfold Sunk at h
  omega

/-- Below zero, to be sunk is to have no quotient. -/
theorem sunk_iff (hnotional : zero < notional) (hequity : equity.units ≤ 0) :
    Sunk equity notional ↔ equity.quotient? notional = none := by
  rw [quotient?_eq_none_iff hnotional, Sunk]
  omega

theorem Sunk.marginRatio_eq (h : Sunk equity notional) (hnotional : zero < notional) :
    marginRatio equity notional = .greatest := by
  rw [Clearing.marginRatio_eq hnotional,
    (sunk_iff hnotional (h.equity_neg hnotional).le).1 h, Option.getD_none]

/-- **More equity has the smaller ratio only where the less of the two is sunk.** -/
theorem marginRatio_lt_iff (hnotional : zero < notional) (hle : equity ≤ equity') :
    marginRatio equity' notional < marginRatio equity notional ↔
      Sunk equity notional ∧ marginRatio equity' notional < .greatest := by
  constructor
  · intro hlt
    rw [marginRatio_eq hnotional, marginRatio_eq hnotional] at *
    cases hquotient : equity.quotient? notional with
    | some ratio =>
      rw [hquotient, Option.getD_some] at hlt
      cases hquotient' : equity'.quotient? notional with
      | some ratio' =>
        rw [hquotient', Option.getD_some] at hlt
        exact absurd (quotient?_mono hnotional hle hquotient hquotient') (not_le.2 hlt)
      | none =>
        rw [hquotient', Option.getD_none] at hlt
        exact absurd (le_greatest ratio) (not_le.2 hlt)
    | none =>
      rw [hquotient, Option.getD_none] at hlt
      refine ⟨(sunk_iff hnotional ?_).2 hquotient, hlt⟩
      -- Equity that is too large for a ratio would leave no ratio to more of it either.
      by_contra hpos
      have hnone : equity'.quotient? notional = none := by
        rw [le_iff_units] at hle
        rw [quotient?_eq_none_iff hnotional] at hquotient ⊢
        omega
      rw [hnone, Option.getD_none, lt_iff_units] at hlt
      exact Int.lt_irrefl _ hlt
  · rintro ⟨hsunk, hlt⟩
    rwa [hsunk.marginRatio_eq hnotional]

/-- **Equity below zero has a ratio above zero just where it is sunk.** -/
theorem zero_lt_marginRatio_iff (hnotional : zero < notional) (hequity : equity < zero) :
    zero < marginRatio equity notional ↔ Sunk equity notional := by
  rw [lt_iff_units, units_zero] at hequity
  rw [sunk_iff hnotional hequity.le, marginRatio_eq hnotional]
  cases hquotient : equity.quotient? notional with
  | some ratio =>
    have hpos : 0 < notional.units.toNat := by
      rw [zero_lt_iff] at hnotional
      omega
    have hratio := roundedRatio?_nonpos hpos (units_of_quotient? hquotient hnotional)
      (Int.mul_nonpos_of_nonpos_of_nonneg hequity.le (Int.natCast_nonneg _))
    rw [Option.getD_some, zero_lt_iff]
    exact iff_of_false (by omega) nofun
  | none => exact iff_of_true (by decide) rfl

end Ratio

/-! ### Portfolios -/

namespace Portfolio

variable {positions : List Position} {owner : AccountId} {now : Instant} {p : Portfolio}

/-- What a portfolio shows of its totals. -/
theorem ofPositions_eq_ok (h : ofPositions owner positions now = .ok p) :
    ∃ t equity, totals positions = .ok t ∧
      t.collateral.add t.pnl "portfolio equity" = .ok equity ∧
      p.totalCollateral = t.collateral ∧ p.netUnrealizedPnl = t.pnl ∧
      p.marginRatio = Clearing.marginRatio equity t.notional := by
  unfold ofPositions at h
  simp only [bind_eq_ok, pure_eq_ok] at h
  obtain ⟨t, ht, equity, hequity, rfl⟩ := h
  exact ⟨t, equity, ht, hequity, rfl, rfl, rfl⟩

/-- Positions in range have no notional value below zero together. -/
theorem notional_nonneg {t : Totals} (h : totals positions = .ok t)
    (hrange : ∀ p ∈ positions, p.InRange) : 0 ≤ t.notional.units := by
  refine foldlM_invariant (P := fun t : Totals => 0 ≤ t.notional.units)
    (fun t p hp next ht hadd => ?_) ?_ h
  · unfold Totals.add at hadd
    simp only [bind_eq_ok, pure_eq_ok] at hadd
    obtain ⟨-, -, -, -, value, hvalue, notional, hnotional, rfl⟩ := hadd
    have hpositive := hrange p hp
    have hsize := zero_lt_iff.1 hpositive.size_pos
    have hnonneg := units_nonneg_of_mul hvalue hsize.le hpositive.entryPrice_nonneg
    exact rounded?_nonneg (units_of_add hnotional) (by omega)
  · exact Int.le_refl 0

end Portfolio

namespace Ledger

variable {l : Ledger}

/-- A portfolio with equity below zero looks safe just where its notional value was rounded to
nothing, or where its equity is sunk. -/
theorem zero_lt_portfolio_marginRatio_iff {first : Nat} {ops : List Operation}
    {replies : List (Except Refusal Reply)} (hpriced : ∀ op ∈ ops, op.Priced)
    (hrun : (startingAt first).run ops = .ok (replies, l)) {owner : AccountId} {p : Portfolio}
    (hp : l.portfolio? owner = some p)
    (hloss : p.totalCollateral.units + p.netUnrealizedPnl.units < 0) :
    ∃ t equity, Portfolio.totals (l.positionsOf owner) = .ok t ∧
      t.collateral.add t.pnl "portfolio equity" = .ok equity ∧
      (zero < p.marginRatio ↔ t.notional.isZero = true ∨ Sunk equity t.notional) := by
  have hindexed := (WellIndexed.startingAt first).run hrun
  have hrange := (InRange.startingAt first).run (.startingAt first) hpriced hrun
  have hcurrent := ((Rolled.startingAt first).run hrun).current owner p hp p.updatedAt
  obtain ⟨t, equity, ht, hequity, hcollateral, hpnl, hratio⟩ := Portfolio.ofPositions_eq_ok hcurrent
  have hnonneg := Portfolio.notional_nonneg ht fun q hq =>
    hrange.positions q.id q (hindexed.mem_positionsOf.1 hq).1
  dsimp only at hcollateral hpnl hratio
  have hneg : equity < zero := by
    have hround := units_of_add hequity
    rw [hcollateral, hpnl] at hloss
    have hle := rounded?_mono hloss.le hround (rounded?_of_representable ⟨zero, units_zero⟩)
    have hne := rounded?_ne_zero hround (by omega)
    rw [lt_iff_units, units_zero]
    omega
  refine ⟨t, equity, ht, hequity, ?_⟩
  rw [hratio]
  by_cases hzero : t.notional.isZero = true
  · rw [marginRatio, if_pos hzero]
    exact iff_of_true (by decide) (.inl hzero)
  · have hpos : zero < t.notional := by
      have := mt units_eq_zero_iff.1 hzero
      rw [Decimal.zero_lt_iff]
      omega
    rw [zero_lt_marginRatio_iff hpos hneg, or_iff_right hzero]

/-- **When a margin ratio misleads.**  With exposure, ratios are in the order of equity but where
the less of it is sunk, and those of equity below zero are not above zero but where it is sunk.
After any run whose orders are priced, a portfolio that has lost more than its collateral shows a
ratio above zero just where its notional value was rounded to nothing or its equity is sunk. -/
theorem marginRatio_misleads_iff {notional : Decimal} (hnotional : zero < notional) {first : Nat}
    {ops : List Operation} {replies : List (Except Refusal Reply)} (hpriced : ∀ op ∈ ops, op.Priced)
    (hrun : (startingAt first).run ops = .ok (replies, l)) :
    (∀ equity equity', equity ≤ equity' →
      (marginRatio equity' notional < marginRatio equity notional ↔
        Sunk equity notional ∧ marginRatio equity' notional < .greatest)) ∧
    (∀ equity, equity < zero → (zero < marginRatio equity notional ↔ Sunk equity notional)) ∧
    ∀ owner p, l.portfolio? owner = some p →
      p.totalCollateral.units + p.netUnrealizedPnl.units < 0 →
      ∃ t equity, Portfolio.totals (l.positionsOf owner) = .ok t ∧
        t.collateral.add t.pnl "portfolio equity" = .ok equity ∧
        (zero < p.marginRatio ↔ t.notional.isZero = true ∨ Sunk equity t.notional) :=
  ⟨fun _ _ hle => marginRatio_lt_iff hnotional hle,
    fun _ hequity => zero_lt_marginRatio_iff hnotional hequity,
    fun _ _ hp hloss => zero_lt_portfolio_marginRatio_iff hpriced hrun hp hloss⟩

/-- A short that loses many times its collateral. -/
def sampleLoss : List Operation :=
  [.openPosition (sampleOrder ⟨1⟩ .short (.ofUInt32 1000)) sampleSchedule .epoch,
    .refresh ⟨1⟩ (.ofUInt32 2000000) .epoch]

/-- Ordinary figures: less equity has the smaller ratio, and that of a loss is below zero. -/
theorem marginRatio_misleads_not :
    ¬ marginRatio .one (.ofUInt32 100) < marginRatio (-.one) (.ofUInt32 100) ∧
    ¬ zero < marginRatio (-.one) (.ofUInt32 100) ∧
    ∃ replies l p t equity, (startingAt 1).run sampleLoss = .ok (replies, l) ∧
      l.portfolio? ⟨1⟩ = some p ∧ p.openPositions = 1 ∧ p.marginRatio < zero ∧
      Portfolio.totals (l.positionsOf ⟨1⟩) = .ok t ∧
      ¬ (t.notional.isZero = true ∨ Sunk equity t.notional) := by
  obtain ⟨⟨replies, l⟩, hrun, htest⟩ := exists_of_succeedsWith
    (fun r : List (Except Refusal Reply) × Ledger => (r.2.portfolio? ⟨1⟩).any fun p =>
      p.openPositions = 1 ∧ p.totalCollateral.units + p.netUnrealizedPnl.units < 0 ∧
        p.marginRatio < zero)
    (x := (startingAt 1).run sampleLoss) (by decide +kernel)
  obtain ⟨p, hp, hseen⟩ := (Option.any_eq_true _ _).1 htest
  obtain ⟨hone, hloss, hratio⟩ := of_decide_eq_true hseen
  obtain ⟨horder, hsign, hportfolio⟩ :=
    @marginRatio_misleads_iff l (.ofUInt32 100) (by decide) 1 sampleLoss replies (by decide) hrun
  refine ⟨fun h => absurd ((horder _ _ (by decide)).1 h).1 (by decide),
    fun h => absurd ((hsign _ (by decide)).1 h) (by decide), ?_⟩
  obtain ⟨t, equity, ht, -, hiff⟩ := hportfolio ⟨1⟩ p hp hloss
  refine ⟨replies, l, p, t, equity, hrun, hp, hone, hratio, ht, fun hmisleads => ?_⟩
  have hpos := hiff.2 hmisleads
  rw [lt_iff_units] at hpos hratio
  omega

/-- A short of next to nothing at next to nothing, marked at a hundred trillions. -/
def sampleSunk : List Operation :=
  [.openPosition ⟨⟨1⟩, ⟨1⟩, .short, { one with scale := 10, scale_le := by decide },
      { one with scale := 10, scale_le := by decide },
      { one with scale := 15, scale_le := by decide }, ⟨5⟩⟩ sampleSchedule .epoch,
    .refresh ⟨1⟩ (.ofUInt64 100000000000000) .epoch]

/-- Equity of -10000 over 10^-25 has the largest ratio there is, above that of no equity, by itself
and in the portfolio of a run. -/
theorem marginRatio_misleads :
    (∃ notional equity equity' : Decimal, zero < notional ∧ equity ≤ equity' ∧ equity < zero ∧
      marginRatio equity' notional < marginRatio equity notional ∧
      zero < marginRatio equity notional) ∧
    ∃ replies l p, (∀ op ∈ sampleSunk, op.Priced) ∧
      (startingAt 1).run sampleSunk = .ok (replies, l) ∧ l.portfolio? ⟨1⟩ = some p ∧
      p.openPositions = 1 ∧ p.totalCollateral.units + p.netUnrealizedPnl.units < 0 ∧
      p.marginRatio = .greatest := by
  refine ⟨⟨{ one with scale := 25, scale_le := by decide }, -.ofUInt32 10000, zero, by decide,
    by decide, by decide, by decide +kernel, by decide +kernel⟩, ?_⟩
  obtain ⟨⟨replies, l⟩, hrun, htest⟩ := exists_of_succeedsWith
    (fun r : List (Except Refusal Reply) × Ledger => (r.2.portfolio? ⟨1⟩).any fun p =>
      p.openPositions = 1 ∧ p.totalCollateral.units + p.netUnrealizedPnl.units < 0 ∧
        p.marginRatio = .greatest)
    (x := (startingAt 1).run sampleSunk) (by decide +kernel)
  obtain ⟨p, hp, hseen⟩ := (Option.any_eq_true _ _).1 htest
  obtain ⟨hone, hloss, hratio⟩ := of_decide_eq_true hseen
  exact ⟨replies, l, p, by decide, hrun, hp, hone, hloss, hratio⟩

end Ledger

end Clearing

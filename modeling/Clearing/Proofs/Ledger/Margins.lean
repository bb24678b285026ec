import Clearing.Proofs.Decimal.Products
import Clearing.Proofs.Ledger.Assessments
import Clearing.Proofs.Ledger.Underflow

/-!
Margins keep order, and what that says of a position.

The initial margin is asked for where a position is opened, added to or deprived of collateral.
Everything else only eases a position: it gets smaller or its collateral larger, and its entry
price stays.  Since rounded products and quotients keep the order of what they are computed from,
an eased position is backed if it was backed before (`Position.BackedBy.eases`).  `Position.Meets`
is what a schedule asks of a position, and goes on holding of it as long as its market keeps the
margins it has.
-/

namespace Clearing

open Decimal

/-! ### Margins keep order -/

theorem Bps.whole_pos : Decimal.zero < Bps.whole := by decide

namespace MarginTier

variable {notional notional' required required' : Decimal} {rate : Bps}

theorem marginFor_eq_ok :
    marginFor notional rate = .ok required ↔
      ∃ scaled, notional.mul rate.toDecimal "margin requirement" = .ok scaled ∧
        scaled.quotient? Bps.whole = some required := by
  have hwhole : Bps.whole.isZero = false := rfl
  unfold marginFor
  simp only [bind_eq_ok, div, hwhole, Bool.false_eq_true, if_false, orOverflow_eq_ok]

/-- The smaller notional value asks for the smaller margin. -/
theorem marginFor_mono (hrate : 0 ≤ rate.toDecimal.units) (hle : notional ≤ notional')
    (h : marginFor notional rate = .ok required) (h' : marginFor notional' rate = .ok required') :
    required ≤ required' := by
  obtain ⟨scaled, hscaled, hrequired⟩ := marginFor_eq_ok.1 h
  obtain ⟨scaled', hscaled', hrequired'⟩ := marginFor_eq_ok.1 h'
  rw [le_iff_units] at hle
  exact quotient?_mono Bps.whole_pos
    (mul_mono (Int.mul_le_mul_of_nonneg_right hle hrate) hscaled hscaled') hrequired hrequired'

/-- A margin can be computed where that of a notional value further from zero can. -/
theorem exists_marginFor (hle : notional.units.natAbs ≤ notional'.units.natAbs)
    (h' : marginFor notional' rate = .ok required') :
    ∃ required, marginFor notional rate = .ok required := by
  obtain ⟨scaled', hscaled', hrequired'⟩ := marginFor_eq_ok.1 h'
  obtain ⟨scaled, hscaled, habs⟩ := exists_mul hle hscaled'
  obtain ⟨required, hrequired⟩ := exists_quotient? Bps.whole_pos habs hrequired'
  exact ⟨required, marginFor_eq_ok.2 ⟨scaled, hscaled, hrequired⟩⟩

theorem marginFor_zero : marginFor zero rate = .ok zero :=
  rfl

end MarginTier

namespace Position

variable {tier tier' : MarginTier} {p p' current : Position}

theorem BackedBy.of_terms (hterms : p'.terms = p.terms) (h : p.BackedBy tier) :
    p'.BackedBy tier := by
  simp only [terms, Prod.mk.injEq] at hterms
  obtain ⟨-, hsize, hentry, hcollateral, -⟩ := hterms
  obtain ⟨hpos, notional, required, hnotional, hrequired, hle⟩ := h
  refine ⟨hcollateral ▸ hpos, notional, required, ?_, hrequired, hcollateral ▸ hle⟩
  unfold Position.notional
  rw [hsize, hentry]
  exact hnotional

theorem BackedBy.of_initial (hinitial : tier'.initial = tier.initial) (h : p.BackedBy tier) :
    p.BackedBy tier' := by
  obtain ⟨hpos, notional, required, hnotional, hrequired, hle⟩ := h
  refine ⟨hpos, notional, required, hnotional, ?_, hle⟩
  unfold MarginTier.initialMargin
  rw [hinitial]
  exact hrequired

/-- **An eased position is backed if it was backed before.** -/
theorem BackedBy.eases (hrate : 0 ≤ tier.initial.toDecimal.units) (hsize : zero < p.size)
    (heases : p.Eases current) (h : current.BackedBy tier) : p.BackedBy tier := by
  obtain ⟨hless, hentry, hmore⟩ := heases
  obtain ⟨hpos, notional', required', hnotional', hrequired', hcovered⟩ := h
  rw [le_iff_units] at hless hmore hcovered
  rw [zero_lt_iff] at hsize hpos
  unfold Position.notional at hnotional'
  rw [← hentry] at hnotional'
  have hsizes : p.size.units.natAbs ≤ current.size.units.natAbs := by omega
  obtain ⟨notional, hnotional, habs⟩ := exists_mul hsizes hnotional'
  obtain ⟨required, hrequired⟩ := MarginTier.exists_marginFor habs hrequired'
  refine ⟨zero_lt_iff.2 (by omega), notional, required, hnotional, hrequired, ?_⟩
  rw [le_iff_units]
  rcases Int.le_total 0 p.entryPrice.units with hnonneg | hnonpos
  · have hle := mul_mono (Int.mul_le_mul_of_nonneg_right hless hnonneg) hnotional hnotional'
    have := le_iff_units.1 (MarginTier.marginFor_mono hrate hle hrequired hrequired')
    omega
  · -- Below a price of zero no margin is asked for, and the collateral is above zero.
    have hnone : zero.mul p.entryPrice "position notional" = .ok zero := rfl
    have hle : notional ≤ zero := by
      refine mul_mono ?_ hnotional hnone
      rw [units_zero, Int.zero_mul]
      exact Int.mul_nonpos_of_nonneg_of_nonpos (by omega) hnonpos
    have := le_iff_units.1 (MarginTier.marginFor_mono hrate hle hrequired MarginTier.marginFor_zero)
    rw [units_zero] at this
    omega

end Position

/-! ### Tiers and schedules -/

namespace MarginTier

/-- What a tier asks for, be its market active or not. -/
def margins (t : MarginTier) : Bps × Bps × Leverage :=
  (t.maintenance, t.initial, t.maxLeverage)

theorem validate_eq_ok {t : MarginTier} : t.validate = .ok () ↔ t.defect? = none := by
  unfold validate
  cases t.defect? <;> simp

theorem defect?_eq_none {t : MarginTier} :
    t.defect? = none ↔ 0 ≤ t.maintenance.toInt ∧ t.maintenance.toInt < t.initial.toInt ∧
      t.initial.toInt ≤ 10000 := by
  unfold defect?
  split
  · simp only [reduceCtorEq, false_iff]
    omega
  · split
    · simp only [reduceCtorEq, false_iff]
      omega
    · split <;> simp only [reduceCtorEq, false_iff, true_iff] <;> omega

/-- A tier without a defect has no initial rate below zero. -/
theorem initial_nonneg {tier : MarginTier} (h : tier.defect? = none) :
    0 ≤ tier.initial.toDecimal.units := by
  obtain ⟨hmaintenance, hbelow, -⟩ := defect?_eq_none.1 h
  have hrate : 0 ≤ tier.initial.toInt := by omega
  by_contra hneg
  obtain ⟨hsign, -⟩ := units_neg_iff.1 (Int.not_le.1 hneg)
  exact absurd hrate (Int.not_le.2 (of_decide_eq_true hsign))

end MarginTier

namespace MarginSchedule

variable {s next : MarginSchedule} {market : MarketId} {tier : MarginTier}

/-- No tier of the schedule has a defect. -/
def Valid (s : MarginSchedule) : Prop :=
  ∀ market tier, s.tier? market = some tier → tier.defect? = none

theorem Valid.insert (h : s.Valid) (htier : tier.defect? = none) :
    Valid ⟨s.tiers.insert market tier⟩ := by
  intro other found hfound
  unfold tier? at hfound
  rw [Table.get?_insert_eq] at hfound
  split at hfound
  · cases hfound
    exact htier
  · exact h other found hfound

theorem install_eq_ok {old : Option MarginTier} (h : s.install market tier = .ok (old, next)) :
    tier.defect? = none ∧ next = ⟨s.tiers.insert market tier⟩ := by
  unfold install at h
  rw [bind_eq_ok] at h
  obtain ⟨⟨⟩, hvalid, heq⟩ := h
  cases heq
  exact ⟨MarginTier.validate_eq_ok.1 hvalid, rfl⟩

theorem setActive_eq_ok {active : Bool} (h : s.setActive market active = .ok next) :
    ∃ tier, s.tier? market = some tier ∧
      next = ⟨s.tiers.insert market { tier with active := active }⟩ := by
  unfold setActive at h
  split at h
  · cases h
    exact ⟨_, ‹_›, rfl⟩
  · cases h

/-- Two schedules ask for the same in a market. -/
def SameMargins (s next : MarginSchedule) (market : MarketId) : Prop :=
  (next.tier? market).map MarginTier.margins = (s.tier? market).map MarginTier.margins

theorem SameMargins.tiers (h : s.SameMargins next market) :
    (s.tier? market = none ∧ next.tier? market = none) ∨
      ∃ tier tier', s.tier? market = some tier ∧ next.tier? market = some tier' ∧
        tier'.margins = tier.margins := by
  unfold SameMargins at h
  cases hown : s.tier? market with
  | none =>
    rw [hown, Option.map_none, Option.map_eq_none_iff] at h
    exact .inl ⟨rfl, h⟩
  | some tier =>
    rw [hown, Option.map_some, Option.map_eq_some_iff] at h
    obtain ⟨tier', htier', hsame⟩ := h
    exact .inr ⟨tier, tier', rfl, htier', hsame⟩

/-- Switching a market on or off replaces no margins. -/
theorem sameMargins_setActive {active : Bool} (h : s.setActive market active = .ok next)
    (other : MarketId) : s.SameMargins next other := by
  obtain ⟨tier, htier, rfl⟩ := setActive_eq_ok h
  unfold SameMargins tier?
  rw [Table.get?_insert_eq]
  split
  · rename_i heq
    rw [heq]
    exact (congrArg (Option.map MarginTier.margins) htier).symm
  · rfl

end MarginSchedule

/-! ### Positions under a schedule -/

/-- A position of a market is backed as the schedule asks, and not too highly leveraged. -/
structure Position.Meets (schedule : MarginSchedule) (market : MarketId) (p : Position) : Prop where
  market_eq : p.market = market
  backed : ∃ tier, schedule.tier? market = some tier ∧ p.BackedBy tier ∧
    p.leverage ≤ tier.maxLeverage

namespace Position.Meets

variable {schedule schedule' : MarginSchedule} {market : MarketId} {p p' : Position}

theorem of_terms (hterms : p'.terms = p.terms) (h : p.Meets schedule market) :
    p'.Meets schedule market := by
  have hsame : p'.identity = p.identity := congrArg Prod.fst hterms
  obtain ⟨hmarket, tier, htier, hbacked, hleverage⟩ := h
  refine ⟨(market_eq_of_identity hsame).trans hmarket, tier, htier, hbacked.of_terms hterms, ?_⟩
  rw [leverage_eq_of_identity hsame]
  exact hleverage

/-- A position that was there and is now backed, or asks for less, goes on meeting the
schedule. -/
theorem of_assessment {tier : MarginTier} (hvalid : schedule.Valid) (hsize : zero < p'.size)
    (hsame : p'.identity = p.identity) (hlisted : schedule.tier? p'.market = some tier)
    (hbacked : p'.BackedBy tier ∨ p'.Eases p) (h : p.Meets schedule market) :
    p'.Meets schedule market := by
  obtain ⟨hmarket, tier', htier', hbacked', hleverage⟩ := h
  have hmarket' : p'.market = market := (market_eq_of_identity hsame).trans hmarket
  rw [hmarket', htier', Option.some.injEq] at hlisted
  subst hlisted
  refine ⟨hmarket', tier', htier', ?_, leverage_eq_of_identity hsame ▸ hleverage⟩
  rcases hbacked with hbacked | heases
  · exact hbacked
  · exact hbacked'.eases (MarginTier.initial_nonneg (hvalid _ _ htier')) hsize heases

theorem of_sameMargins (hmargins : schedule.SameMargins schedule' market)
    (h : p.Meets schedule market) : p.Meets schedule' market := by
  obtain ⟨hmarket, tier, htier, hbacked, hleverage⟩ := h
  unfold MarginSchedule.SameMargins at hmargins
  rw [htier, Option.map_some, Option.map_eq_some_iff] at hmargins
  obtain ⟨tier', htier', hsame⟩ := hmargins
  simp only [MarginTier.margins, Prod.mk.injEq] at hsame
  obtain ⟨-, hinitial, hmax⟩ := hsame
  exact ⟨hmarket, tier', htier', hbacked.of_initial hinitial, hmax ▸ hleverage⟩

end Position.Meets

end Clearing

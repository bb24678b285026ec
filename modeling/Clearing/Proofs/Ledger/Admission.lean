import Clearing.Proofs.Ledger.Margins
import Clearing.Proofs.Ledger.Runs
import Clearing.Proofs.Position.Liquidation

/-!
How safe a position is that has taken on risk.

A change that adds size or takes out collateral is held to the initial margin of the position as it
will be, at the average of its entry prices; the price of the change enters that average and is
looked at nowhere else.  So the collateral covers the initial margin, and with it the lower
maintenance margin (`Position.BackedBy.maintenance_le`), and what it has above that margin is how
far the price may move from the entry.  A price that has moved as far already is not refused: the
position is liquidatable at once just where it has (`Ledger.modify_admits`).
-/

namespace Clearing

open Decimal

/-! ### The two margins -/

namespace MarginTier

variable {tier : MarginTier} {notional maintenance initial : Decimal}

/-- The rates of a tier without a defect, as decimals. -/
theorem rates_of_valid (hvalid : tier.defect? = none) :
    0 ≤ tier.maintenance.toDecimal.units ∧
      tier.maintenance.toDecimal.units ≤ tier.initial.toDecimal.units := by
  obtain ⟨hnonneg, hbelow, -⟩ := defect?_eq_none.1 hvalid
  have hscale : (0 : Int) ≤ tenPow maxScale := Int.natCast_nonneg _
  rw [Bps.toDecimal, Bps.toDecimal, units_ofInt32, units_ofInt32]
  exact ⟨Int.mul_nonneg hnonneg hscale,
    Int.mul_le_mul_of_nonneg_right (Int.le_of_lt hbelow) hscale⟩

/-- A tier without a defect asks for no less at first than it does later. -/
theorem maintenanceMargin_le (hvalid : tier.defect? = none) (hnotional : 0 ≤ notional.units)
    (hmaintenance : tier.maintenanceMargin notional = .ok maintenance)
    (hinitial : tier.initialMargin notional = .ok initial) : maintenance ≤ initial := by
  obtain ⟨scaled, hscaled, hquotient⟩ := marginFor_eq_ok.1 hmaintenance
  obtain ⟨scaled', hscaled', hquotient'⟩ := marginFor_eq_ok.1 hinitial
  have hrates := (rates_of_valid hvalid).2
  exact quotient?_mono Bps.whole_pos
    (mul_mono (Int.mul_le_mul_of_nonneg_left hrates hnotional) hscaled hscaled') hquotient
    hquotient'

end MarginTier

/-- **Collateral that covers the initial margin covers the maintenance margin.** -/
theorem Position.BackedBy.maintenance_le {tier : MarginTier} {p : Position} {maintenance : Decimal}
    (hvalid : tier.defect? = none) (h : p.BackedBy tier)
    (hmaintenance : requiredMaintenance p.size p.entryPrice tier = .ok maintenance) :
    maintenance ≤ p.collateral := by
  obtain ⟨hpos, notional, initial, hnotional, hinitial, hcovered⟩ := h
  unfold requiredMaintenance at hmaintenance
  rw [bind_eq_ok] at hmaintenance
  obtain ⟨notional', hnotional', hmaintenance⟩ := hmaintenance
  obtain rfl : notional' = notional :=
    Option.some.inj ((orOverflow_eq_ok.1 hnotional').symm.trans (orOverflow_eq_ok.1 hnotional))
  rw [zero_lt_iff] at hpos
  rw [le_iff_units] at hcovered ⊢
  rcases Int.le_total 0 notional'.units with hnonneg | hnonpos
  · have hle :=
      le_iff_units.1 (MarginTier.maintenanceMargin_le hvalid hnonneg hmaintenance hinitial)
    omega
  · -- Nothing is asked for below zero.
    have hle := le_iff_units.1 (MarginTier.marginFor_mono (MarginTier.rates_of_valid hvalid).1
      (le_iff_units.2 (units_zero ▸ hnonpos)) hmaintenance MarginTier.marginFor_zero)
    rw [units_zero] at hle
    omega

/-! ### How far the price may go -/

/-- The price has moved from the entry against the position as far as `move`, to the nearest
decimal.  A long position can go no further than to the smallest price. -/
def Side.Reaches : Side → Price → Decimal → Price → Prop
  | .long, entry, move, mark =>
    ∃ limit, rounded? (entry.units - move.units) = some limit ∧
      mark.units ≤ Max.max limit Price.epsilon.units
  | .short, entry, move, mark =>
    ∃ limit, rounded? (entry.units + move.units) = some limit ∧ limit ≤ mark.units

/-- A liquidation price is reached where the price has moved as far as the collateral allows. -/
theorem Position.isLiquidatableAt_iff_reaches {p : Position} {move : Decimal} {mark : Price}
    (hend : p.side.moveFrom p.entryPrice move = .ok p.liquidationPrice)
    (hbelow : p.side = .short → p.liquidationPrice < greatest) :
    p.isLiquidatableAt mark = true ↔ p.side.Reaches p.entryPrice move mark := by
  cases hside : p.side with
  | long =>
    rw [hside] at hend
    obtain ⟨limit, hlimit, hprice⟩ := moveFrom_long hend
    have hpos := epsilon_pos
    rw [isLiquidatableAt_long hside, le_iff_units, hprice]
    constructor
    · intro h
      exact ⟨limit, hlimit, by omega⟩
    · rintro ⟨limit', hlimit', hle⟩
      rw [hlimit, Option.some.injEq] at hlimit'
      subst hlimit'
      exact .inr hle
  | short =>
    rw [hside] at hend
    have hbelow := hbelow hside
    rw [isLiquidatableAt_short hside, or_iff_right (not_not_intro hbelow), le_iff_units]
    rcases moveFrom_short hend with hlimit | hgreatest
    · constructor
      · exact fun hle => ⟨_, hlimit, hle⟩
      · rintro ⟨limit, hlimit', hle⟩
        rw [hlimit, Option.some.injEq] at hlimit'
        rwa [hlimit']
    · rw [hgreatest, lt_iff_units] at hbelow
      exact absurd hbelow (Int.lt_irrefl _)

/-- What a position comes to that has taken on risk at the price `mark`: its collateral covers both
margins at its entry price.  With no more than the maintenance margin it is liquidatable, and with
more just where the price has moved by what the rest of the collateral allows. -/
structure Position.AdmittedAt (tier : MarginTier) (mark : Price) (p : Position) (flag : Bool) :
    Prop where
  backed : p.BackedBy tier
  margined : ∃ maintenance, requiredMaintenance p.size p.entryPrice tier = .ok maintenance ∧
    maintenance ≤ p.collateral ∧ (p.collateral ≤ maintenance → flag = true) ∧
    (maintenance < p.collateral →
      ∃ move, priceMove p.size p.collateral maintenance = .ok move ∧ zero ≤ move ∧
        ((p.side = .short → p.liquidationPrice < greatest) →
          (flag = true ↔ p.side.Reaches p.entryPrice move mark)))

theorem Position.admittedAt {p : Position} {tier : MarginTier} (hvalid : tier.defect? = none)
    (hsize : zero < p.size) (hpriced : p.PricedBy tier) (hbacked : p.BackedBy tier)
    (mark : Price) : p.AdmittedAt tier mark (p.isLiquidatableAt mark) := by
  obtain ⟨maintenance, hmaintenance, hform⟩ := liquidationPrice_eq_ok.1 hpriced
  refine ⟨hbacked, maintenance, hmaintenance, hbacked.maintenance_le hvalid hmaintenance,
    fun hnone => ?_, fun hmore => ?_⟩
  · rcases hform with ⟨-, hbound⟩ | ⟨hmore, -⟩
    · exact isLiquidatableAt_of_exhausted hbound
    · exact absurd hnone (Decimal.not_le.2 hmore)
  · rcases hform with ⟨hnone, -⟩ | ⟨-, move, hmove, hend⟩
    · exact absurd hnone (Decimal.not_le.2 hmore)
    · have hnonneg := priceMove_nonneg hsize hmore hmove
      exact ⟨move, hmove, le_iff_units.2 (units_zero ▸ hnonneg),
        isLiquidatableAt_iff_reaches hend⟩

namespace Ledger

/-- **What the margin check makes of a change that adds risk.**  After any run, such a change at a
price is accepted only where the collateral covers both margins at the entry price of the position
as it then is; and the position is liquidatable at once just where the price has moved from that
entry by what is left of the collateral. -/
theorem modify_admits {first : Nat} {ops : List Operation}
    {replies : List (Except Refusal Reply)} {l : Ledger}
    (hl : (startingAt first).run ops = .ok (replies, l)) {id : PositionId} {sizeDelta : Decimal}
    {collateralDelta : Amount} {mark : Price} {schedule : MarginSchedule} {now : Instant}
    {posted : Posted Amount} (hvalid : schedule.Valid)
    (hrisk : Decimal.zero < sizeDelta ∨ collateralDelta < .zero)
    (h : l.modify id sizeDelta collateralDelta mark schedule now = .ok posted) :
    ∃ p tier flag, posted.ledger.position? id = some p ∧ schedule.tier? p.market = some tier ∧
      posted.ledger.isLiquidatable? id = some flag ∧ p.AdmittedAt tier mark flag := by
  have hsound := (Sound.startingAt first).run hl
  obtain ⟨current, tier, p, notice, hheld, htier, -, hcontinues, hpriced, hmargined, -, hamends⟩ :=
    modify_margined h
  rw [if_pos hrisk] at hmargined
  have hid : p.id = id :=
    (Position.id_eq_of_identity hcontinues.identity).trans (hsound.indexed.stored id current hheld)
  have hentry : posted.ledger.entries.get? id = some ⟨p, p.isLiquidatableAt mark⟩ := by
    rw [hamends.get?_entries, hid, if_pos rfl]
  have hmarket : p.market = current.market := Position.market_eq_of_identity hcontinues.identity
  have hsize : zero < p.size := hcontinues.size_pos (hsound.sized id current hheld)
  refine ⟨p, tier, p.isLiquidatableAt mark, ?_, hmarket ▸ htier, ?_,
    Position.admittedAt (hvalid _ _ htier) hsize hpriced hmargined mark⟩
  · rw [position?, hentry, Option.map_some]
  · rw [isLiquidatable?, hentry, Option.map_some]

/-! ### Samples -/

theorem sampleSchedule_valid : sampleSchedule.Valid :=
  MarginSchedule.Valid.insert (s := .empty) (fun _ _ h => nomatch h) (by decide)

/-- An order is opened, and a change that adds risk to it is accepted and leaves this flag. -/
def Leaves (order : Order) (sizeDelta : Decimal) (collateralDelta : Amount) (mark : Price)
    (flag : Bool) : Prop :=
  (Decimal.zero < sizeDelta ∨ collateralDelta < .zero) ∧ ∃ replies l posted,
    (startingAt 1).run [.openPosition order sampleSchedule .epoch] = .ok (replies, l) ∧
      l.modify ⟨1⟩ sizeDelta collateralDelta mark sampleSchedule .epoch = .ok posted ∧
      posted.ledger.isLiquidatable? ⟨1⟩ = some flag

theorem leaves_of_succeedsWith {order : Order} {sizeDelta : Decimal} {collateralDelta : Amount}
    {mark : Price} {flag : Bool} (hrisk : Decimal.zero < sizeDelta ∨ collateralDelta < .zero)
    (h : succeedsWith (fun r => succeedsWith
        (fun posted => decide (posted.ledger.isLiquidatable? ⟨1⟩ = some flag))
        (r.2.modify ⟨1⟩ sizeDelta collateralDelta mark sampleSchedule .epoch))
      ((startingAt 1).run [.openPosition order sampleSchedule .epoch]) = true) :
    Leaves order sizeDelta collateralDelta mark flag := by
  obtain ⟨⟨replies, l⟩, hl, h⟩ := exists_of_succeedsWith _ h
  obtain ⟨posted, hposted, hflag⟩ := exists_of_succeedsWith _ h
  exact ⟨hrisk, replies, l, posted, hl, hposted, of_decide_eq_true hflag⟩

/-- Long 10 at 100, with this collateral. -/
def sampleLong (collateral : Amount) : Order :=
  { sampleOrder ⟨1⟩ .long (.ofUInt32 10) with collateral := collateral }

/-- With 200 behind it, one more at 95 leaves it safe. -/
theorem modify_admits_added :
    ∃ replies l posted p tier,
      (startingAt 1).run [.openPosition (sampleLong (.ofUInt32 200)) sampleSchedule .epoch]
        = .ok (replies, l) ∧
      sampleSchedule.Valid ∧
      l.modify ⟨1⟩ .one .zero (.ofUInt32 95) sampleSchedule .epoch = .ok posted ∧
      posted.ledger.position? ⟨1⟩ = some p ∧ sampleSchedule.tier? p.market = some tier ∧
      posted.ledger.isLiquidatable? ⟨1⟩ = some false ∧
      p.AdmittedAt tier (.ofUInt32 95) false := by
  have hleaves : Leaves (sampleLong (.ofUInt32 200)) .one .zero (.ofUInt32 95) false :=
    leaves_of_succeedsWith (by decide) (by decide +kernel)
  obtain ⟨hrisk, replies, l, posted, hl, hposted, hflag⟩ := hleaves
  obtain ⟨p, tier, flag, hp, htier, hflag', hadmitted⟩ :=
    modify_admits hl sampleSchedule_valid hrisk hposted
  obtain rfl : false = flag := Option.some.inj (hflag.symm.trans hflag')
  exact ⟨replies, l, posted, p, tier, hl, sampleSchedule_valid, hposted, hp, htier, hflag,
    hadmitted⟩

/-- At 90, a long position at 100 with 101 behind it lets 1 of that be taken out; at 80, one with
200 behind it can be added to; and one at half the smallest price is below that price at its entry.
All three are liquidatable at once. -/
theorem modify_leaves_liquidatable :
    sampleSchedule.Valid ∧
      Leaves (sampleLong (.ofUInt32 101)) .zero (-.one) (.ofUInt32 90) true ∧
      Leaves (sampleLong (.ofUInt32 200)) .one .zero (.ofUInt32 80) true ∧
      Leaves { sampleOrder ⟨1⟩ .long .one with
          collateral := ⟨false, 125, 21, by decide, by decide⟩
          entryPrice := ⟨false, 5, 19, by decide, by decide⟩ }
        .zero ⟨true, 1, 21, by decide, by decide⟩ ⟨false, 5, 19, by decide, by decide⟩ true :=
  ⟨sampleSchedule_valid,
    leaves_of_succeedsWith (by decide) (by decide +kernel),
    leaves_of_succeedsWith (by decide) (by decide +kernel),
    leaves_of_succeedsWith (by decide) (by decide +kernel)⟩

end Ledger

end Clearing

import Clearing.Position.Basic
import Clearing.Proofs.Decimal.Products

/-!
Where liquidation prices stand, and what more collateral does to them.

A liquidation price passes through several roundings, a floor and a saturation.
`liquidationPrice_eq_ok` takes the computation apart once: the maintenance margin, how far the
price may move before the collateral is down to it, and where that move ends.  Rounding keeps the
order of what is rounded, so the price stands where it should, except that rounding can make two
different prices one, and that the floor and the saturation put a price where no move leads.

`liquidationPrice_side` is where the price stands.  `isLiquidatableAt_toppedUp_iff` is what a top-up
can do: it moves the price away from the mark, until the price of a short position is the largest
decimal, which is read as the bound of an exhausted one.
-/

namespace Clearing

open Decimal

/-! ### Taking a liquidation price apart -/

/-- The maintenance margin of a position of this size, as its liquidation price goes by it. -/
def requiredMaintenance (size : Decimal) (entry : Price) (tier : MarginTier) :
    Except ArithmeticError Decimal := do
  let notional ← size.mul entry "liquidation notional"
  tier.maintenanceMargin notional

/-- How far the price may move before the collateral is down to the maintenance margin. -/
def priceMove (size : Decimal) (collateral : Amount) (maintenance : Decimal) :
    Except ArithmeticError Decimal := do
  let buffer ← collateral.sub maintenance "liquidation buffer"
  return (buffer.div? size).getD .greatest

/-- Where a move against the position ends. -/
def Side.moveFrom (side : Side) (entry : Price) (move : Decimal) :
    Except (Failure ArithmeticError) Decimal :=
  match side with
  | .long => do
    let price ← entry.subOrStop move
    return price.max Price.epsilon
  | .short => return (entry.add? move).getD .greatest

variable {side : Side} {size move move' : Decimal} {entry mark : Price}
  {collateral more : Amount} {tier : MarginTier} {maintenance l l' : Decimal}

theorem liquidationPrice_eq_ok :
    liquidationPrice side size entry collateral tier = .ok l ↔
      ∃ maintenance, requiredMaintenance size entry tier = .ok maintenance ∧
        (collateral ≤ maintenance ∧ l = side.exhaustedBound ∨
          maintenance < collateral ∧
            ∃ move, priceMove size collateral maintenance = .ok move ∧
              side.moveFrom entry move = .ok l) := by
  unfold liquidationPrice requiredMaintenance
  simp only [bind_eq_ok, refusing_eq_ok]
  constructor
  · rintro ⟨notional, hnotional, maintenance, hmaintenance, h⟩
    refine ⟨maintenance, ⟨notional, hnotional, hmaintenance⟩, ?_⟩
    by_cases hle : collateral ≤ maintenance
    · rw [if_pos hle, pure_eq_ok] at h
      exact .inl ⟨hle, h.symm⟩
    · rw [if_neg hle] at h
      simp only [bind_eq_ok, refusing_eq_ok] at h
      obtain ⟨buffer, hbuffer, h⟩ := h
      refine .inr ⟨not_le.1 hle, _, ?_, h⟩
      rw [priceMove, bind_eq_ok]
      exact ⟨buffer, hbuffer, rfl⟩
  · rintro ⟨maintenance, ⟨notional, hnotional, hmaintenance⟩, h⟩
    refine ⟨notional, hnotional, maintenance, hmaintenance, ?_⟩
    rcases h with ⟨hle, rfl⟩ | ⟨hlt, move, hmove, h⟩
    · rw [if_pos hle, pure_eq_ok]
    · rw [if_neg (not_le.2 hlt)]
      rw [priceMove, bind_eq_ok] at hmove
      obtain ⟨buffer, hbuffer, hmove⟩ := hmove
      simp only [bind_eq_ok, refusing_eq_ok]
      refine ⟨buffer, hbuffer, ?_⟩
      rw [pure_eq_ok] at hmove
      rw [hmove]
      exact h

/-! ### The move -/

theorem div?_eq_quotient? {a b : Decimal} (hb : zero < b) : a.div? b = a.quotient? b := by
  have hne : ¬ b.isZero = true := by
    rw [← units_eq_zero_iff]
    rw [zero_lt_iff] at hb
    omega
  rw [div?, if_neg hne]

theorem priceMove_nonneg (hsize : zero < size) (hlt : maintenance < collateral)
    (h : priceMove size collateral maintenance = .ok move) : 0 ≤ move.units := by
  rw [priceMove, bind_eq_ok] at h
  obtain ⟨buffer, hbuffer, h⟩ := h
  rw [pure_eq_ok, div?_eq_quotient? hsize] at h
  subst h
  have hpos := sub_pos hbuffer hlt
  cases hquot : buffer.quotient? size with
  | none => decide
  | some d =>
    rw [zero_lt_iff] at hpos
    exact roundedRatio?_nonneg (units_of_quotient? hquot hsize)
      (Int.mul_nonneg (by omega) (Int.natCast_nonneg _))

/-- The more collateral, the further the price may move. -/
theorem priceMove_mono (hsize : zero < size) (hlt : maintenance < collateral)
    (hmore : collateral ≤ more) (h : priceMove size collateral maintenance = .ok move)
    (h' : priceMove size more maintenance = .ok move') : move ≤ move' := by
  rw [priceMove, bind_eq_ok] at h h'
  obtain ⟨buffer, hbuffer, h⟩ := h
  obtain ⟨buffer', hbuffer', h'⟩ := h'
  rw [pure_eq_ok, div?_eq_quotient? hsize] at h h'
  subst h h'
  have hpos := sub_pos hbuffer hlt
  have hle : buffer ≤ buffer' := by
    rw [le_iff_units] at hmore ⊢
    exact rounded?_mono (by omega) (units_of_sub hbuffer) (units_of_sub hbuffer')
  cases hquot' : buffer'.quotient? size with
  | none => exact le_greatest _
  | some d' =>
    have habs : buffer.units.natAbs ≤ buffer'.units.natAbs := by
      rw [zero_lt_iff] at hpos
      rw [le_iff_units] at hle
      omega
    obtain ⟨d, hquot⟩ := exists_quotient? hsize habs hquot'
    rw [hquot]
    exact quotient?_mono hsize hle hquot hquot'

/-! ### Where a move ends -/

theorem moveFrom_long (h : Side.long.moveFrom entry move = .ok l) :
    ∃ price, rounded? (entry.units - move.units) = some price ∧
      l.units = Max.max price Price.epsilon.units := by
  simp only [Side.moveFrom, bind_eq_ok, pure_eq_ok] at h
  obtain ⟨price, hprice, rfl⟩ := h
  exact ⟨price.units, units_of_subOrStop hprice, units_max _ _⟩

theorem moveFrom_short (h : Side.short.moveFrom entry move = .ok l) :
    rounded? (entry.units + move.units) = some l.units ∨ l = greatest := by
  simp only [Side.moveFrom, pure_eq_ok] at h
  rw [← add?_units]
  cases hsum : entry.add? move with
  | none =>
    rw [hsum] at h
    exact .inr h.symm
  | some price =>
    rw [hsum] at h
    exact .inl (congrArg (fun d : Decimal => some d.units) h)

/-- A liquidation price strictly on the side where the position loses; that of a long position is
a price above zero. -/
def Side.Adverse : Side → Price → Decimal → Prop
  | .long, entry, l => zero < l ∧ l < entry
  | .short, entry, l => entry < l

instance (side : Side) (entry : Price) (l : Decimal) : Decidable (side.Adverse entry l) :=
  match side with
  | .long => inferInstanceAs (Decidable (_ ∧ _))
  | .short => inferInstanceAs (Decidable (_ < _))

/-- A liquidation price not on the side where the position gains, unless the smallest price is
there. -/
def Side.NotFavourable : Side → Price → Decimal → Prop
  | .long, entry, l => zero < l ∧ l ≤ entry.max Price.epsilon
  | .short, entry, l => entry ≤ l

/-- The move leaves room for a price: some decimal is no further from the entry than the move, and
on the losing side of it. -/
def Side.HasRoom : Side → Price → Decimal → Prop
  | .long, entry, move =>
    Price.epsilon < entry ∧ ∃ x : Decimal, entry.units - move.units ≤ x.units ∧ x < entry
  | .short, entry, move => ∃ x : Decimal, entry < x ∧ x.units ≤ entry.units + move.units

theorem epsilon_pos : 0 < Price.epsilon.units := by decide

theorem notFavourable_of_moveFrom (hmove : 0 ≤ move.units) (h : side.moveFrom entry move = .ok l) :
    side.NotFavourable entry l := by
  cases side with
  | long =>
    obtain ⟨price, hprice, hl⟩ := moveFrom_long h
    have hle := rounded?_mono (by omega : entry.units - move.units ≤ entry.units) hprice
      (rounded?_units entry)
    have hpos := epsilon_pos
    rw [Side.NotFavourable, zero_lt_iff, le_iff_units, units_max]
    omega
  | short =>
    rcases moveFrom_short h with hprice | rfl
    · exact le_iff_units.2
        (rounded?_mono (by omega : entry.units ≤ entry.units + move.units)
          (rounded?_units entry) hprice)
    · exact le_greatest entry

/-- Rounding does not pass a decimal, so where one is left between, the price is not the entry. -/
theorem adverse_of_moveFrom (hroom : side.HasRoom entry move)
    (h : side.moveFrom entry move = .ok l) : side.Adverse entry l := by
  cases side with
  | long =>
    obtain ⟨hfloor, x, hx, hlt⟩ := hroom
    obtain ⟨price, hprice, hl⟩ := moveFrom_long h
    have hle := rounded?_mono hx hprice (rounded?_units x)
    have hpos := epsilon_pos
    rw [lt_iff_units] at hfloor hlt
    rw [Side.Adverse, zero_lt_iff, lt_iff_units]
    omega
  | short =>
    obtain ⟨x, hlt, hx⟩ := hroom
    rw [Side.Adverse, lt_iff_units]
    rw [lt_iff_units] at hlt
    rcases moveFrom_short h with hprice | rfl
    · have hle := rounded?_mono hx (rounded?_units x) hprice
      omega
    · have hle := le_iff_units.1 (le_greatest x)
      omega

/-- **Where a liquidation price stands.**  With the collateral down to the maintenance margin it
is the bound.  Otherwise it is not on the side where the position gains, unless the smallest price
is there; and it is strictly on the losing side wherever the move leaves room for a price. -/
theorem liquidationPrice_side (hsize : zero < size)
    (h : liquidationPrice side size entry collateral tier = .ok l) :
    ∃ maintenance, requiredMaintenance size entry tier = .ok maintenance ∧
      (collateral ≤ maintenance → l = side.exhaustedBound) ∧
      (maintenance < collateral →
        side.NotFavourable entry l ∧
          ∃ move, priceMove size collateral maintenance = .ok move ∧
            (side.HasRoom entry move → side.Adverse entry l)) := by
  obtain ⟨maintenance, hmaintenance, hform⟩ := liquidationPrice_eq_ok.1 h
  refine ⟨maintenance, hmaintenance, fun hle => ?_, fun hlt => ?_⟩
  · rcases hform with ⟨-, hbound⟩ | ⟨hlt, -⟩
    · exact hbound
    · exact absurd hle (not_le.2 hlt)
  · rcases hform with ⟨hle, -⟩ | ⟨-, move, hmove, hend⟩
    · exact absurd hle (not_le.2 hlt)
    · exact ⟨notFavourable_of_moveFrom (priceMove_nonneg hsize hlt hmove) hend, move, hmove,
        fun hroom => adverse_of_moveFrom hroom hend⟩

/-- A long position of size 10 at 2000 with 500 more than its maintenance margin. -/
theorem liquidationPrice_side_solvent :
    ∃ l maintenance,
      liquidationPrice .long (.ofUInt32 10) (.ofUInt32 2000) (.ofUInt32 1500) .standard = .ok l ∧
        requiredMaintenance (.ofUInt32 10) (.ofUInt32 2000) .standard = .ok maintenance ∧
        maintenance < .ofUInt32 1500 ∧ Side.long.Adverse (.ofUInt32 2000) l := by
  obtain ⟨l, h, -⟩ := exists_of_succeedsWith (fun _ => true)
    (x := liquidationPrice .long (.ofUInt32 10) (.ofUInt32 2000) (.ofUInt32 1500) .standard)
    (by decide +kernel)
  obtain ⟨m, hm, hlt⟩ := exists_of_succeedsWith (fun m : Decimal => decide (m < .ofUInt32 1500))
    (x := requiredMaintenance (.ofUInt32 10) (.ofUInt32 2000) .standard) (by decide +kernel)
  have hlt := of_decide_eq_true hlt
  obtain ⟨maintenance, hmaintenance, -, hsolvent⟩ := liquidationPrice_side (by decide) h
  obtain rfl : m = maintenance := Except.ok.inj (hm.symm.trans hmaintenance)
  obtain ⟨-, move, hmove, hside⟩ := hsolvent hlt
  -- The price may fall by 50, so there is room for 1999.
  obtain ⟨move', hmove', hreach⟩ := exists_of_succeedsWith
    (fun move : Decimal => decide ((ofUInt32 2000).units - move.units ≤ (ofUInt32 1999).units))
    (x := requiredMaintenance (.ofUInt32 10) (.ofUInt32 2000) .standard >>=
      priceMove (.ofUInt32 10) (.ofUInt32 1500)) (by decide +kernel)
  rw [hm] at hmove'
  obtain rfl : move' = move := Except.ok.inj (hmove'.symm.trans hmove)
  exact ⟨l, m, h, hm, hlt,
    hside ⟨by decide, .ofUInt32 1999, of_decide_eq_true hreach, by decide⟩⟩

/-- A position with more collateral than its maintenance margin, in a market with the standard
rates, whose liquidation price is not strictly on the losing side. -/
def Side.Misplaces (side : Side) (size : Decimal) (entry : Price) (collateral : Amount) : Prop :=
  zero < size ∧ zero < entry ∧ ∃ maintenance l,
    requiredMaintenance size entry .standard = .ok maintenance ∧ maintenance < collateral ∧
      liquidationPrice side size entry collateral .standard = .ok l ∧ ¬ side.Adverse entry l

theorem Side.misplaces_of_succeedsWith {side : Side} {size : Decimal} {entry : Price}
    {collateral : Amount} (hsize : zero < size) (hentry : zero < entry)
    (hm : succeedsWith (fun m => decide (m < collateral))
      (requiredMaintenance size entry .standard) = true)
    (hl : succeedsWith (fun l => !decide (side.Adverse entry l))
      (liquidationPrice side size entry collateral .standard) = true) :
    side.Misplaces size entry collateral := by
  obtain ⟨maintenance, hmaintenance, hlt⟩ := exists_of_succeedsWith _ hm
  obtain ⟨l, hprice, hnot⟩ := exists_of_succeedsWith _ hl
  rw [Bool.not_eq_true', decide_eq_false_iff_not] at hnot
  exact ⟨hsize, hentry, maintenance, l, hmaintenance, of_decide_eq_true hlt, hprice, hnot⟩

/-- The smallest price is above an entry of 5e-19; and an entry of 2 that the price may leave by
less than a last digit is the liquidation price, on either side. -/
theorem liquidationPrice_misplaced :
    MarginTier.standard.defect? = none ∧
      Side.long.Misplaces one ⟨false, 5, 19, by decide, by decide⟩
        ⟨false, 125, 21, by decide, by decide⟩ ∧
      Side.long.Misplaces (.ofUInt32 4) (.ofUInt32 2)
        ⟨false, 4000000000000000000000000001, 28, by decide, by decide⟩ ∧
      Side.short.Misplaces (.ofUInt32 4) (.ofUInt32 2)
        ⟨false, 4000000000000000000000000001, 28, by decide, by decide⟩ :=
  ⟨by decide,
    Side.misplaces_of_succeedsWith (by decide) (by decide) (by decide +kernel) (by decide +kernel),
    Side.misplaces_of_succeedsWith (by decide) (by decide) (by decide +kernel) (by decide +kernel),
    Side.misplaces_of_succeedsWith (by decide) (by decide) (by decide +kernel) (by decide +kernel)⟩

/-! ### More collateral -/

/-- Comparing with the largest decimal finds one that is not below it. -/
theorem cmp_greatest_eq (d : Decimal) : (d.cmp greatest == .eq) = true ↔ ¬ d < greatest := by
  have hle : ¬ greatest < d := fun h => absurd (le_greatest d) (not_le.2 h)
  unfold Decimal.cmp
  by_cases hlt : d < greatest
  · rw [if_pos hlt]
    exact iff_of_false nofun (not_not_intro hlt)
  · rw [if_neg hlt, if_neg hle]
    exact iff_of_true rfl hlt

theorem isLiquidatableAt_long {p : Position} (hside : p.side = .long) :
    p.isLiquidatableAt mark = true ↔ p.liquidationPrice.units = 0 ∨ mark ≤ p.liquidationPrice := by
  unfold Position.isLiquidatableAt
  rw [hside]
  simp only [Bool.or_eq_true, decide_eq_true_eq, units_eq_zero_iff]

theorem isLiquidatableAt_short {p : Position} (hside : p.side = .short) :
    p.isLiquidatableAt mark = true ↔
      ¬ p.liquidationPrice < greatest ∨ p.liquidationPrice ≤ mark := by
  unfold Position.isLiquidatableAt
  rw [hside]
  simp only [Bool.or_eq_true, decide_eq_true_eq, cmp_greatest_eq]

/-- An exhausted position is liquidatable at every price. -/
theorem isLiquidatableAt_of_exhausted {p : Position}
    (h : p.liquidationPrice = p.side.exhaustedBound) : p.isLiquidatableAt mark = true := by
  cases hside : p.side with
  | long =>
    rw [hside] at h
    rw [isLiquidatableAt_long hside, h]
    exact .inl rfl
  | short =>
    rw [hside] at h
    rw [isLiquidatableAt_short hside, h]
    exact .inl (by decide)

/-- The further the price may move, the further from the entry the move ends. -/
theorem moveFrom_long_anti (hmove : move ≤ move') (h : Side.long.moveFrom entry move = .ok l)
    (h' : Side.long.moveFrom entry move' = .ok l') : l' ≤ l := by
  obtain ⟨price, hprice, hl⟩ := moveFrom_long h
  obtain ⟨price', hprice', hl'⟩ := moveFrom_long h'
  rw [le_iff_units] at hmove ⊢
  have hle := rounded?_mono
    (by omega : entry.units - move'.units ≤ entry.units - move.units) hprice' hprice
  omega

theorem moveFrom_short_mono (hmove : move ≤ move') (h : Side.short.moveFrom entry move = .ok l)
    (h' : Side.short.moveFrom entry move' = .ok l') (hlt : l < greatest) : l ≤ l' := by
  rcases moveFrom_short h with hprice | rfl
  · rcases moveFrom_short h' with hprice' | rfl
    · rw [le_iff_units] at hmove ⊢
      exact rounded?_mono (by omega) hprice hprice'
    · exact le_greatest l
  · exact absurd (le_iff_units.2 (Int.le_refl _)) (not_le.2 hlt)

/-- The position with its collateral topped up to `more`, and the price that is then its
liquidation price. -/
def Position.toppedUp (p : Position) (more : Amount) (price : Decimal) : Position :=
  { p with collateral := more, liquidationPrice := price }

/-- **What a top-up can do.**  A position that is not liquidatable at a price is, after a top-up,
liquidatable there exactly if it is short and its new liquidation price is the largest decimal. -/
theorem isLiquidatableAt_toppedUp_iff {p : Position} {price : Decimal} (hsize : zero < p.size)
    (hp : liquidationPrice p.side p.size p.entryPrice p.collateral tier = .ok p.liquidationPrice)
    (hmore : p.collateral ≤ more)
    (hprice : liquidationPrice p.side p.size p.entryPrice more tier = .ok price)
    (hmark : p.isLiquidatableAt mark = false) :
    (p.toppedUp more price).isLiquidatableAt mark = true ↔
      p.side = .short ∧ ¬ price < greatest := by
  obtain ⟨maintenance, hmaintenance, hform⟩ := liquidationPrice_eq_ok.1 hp
  obtain ⟨maintenance', hmaintenance', hform'⟩ := liquidationPrice_eq_ok.1 hprice
  obtain rfl : maintenance = maintenance' :=
    Except.ok.inj (hmaintenance.symm.trans hmaintenance')
  rcases hform with ⟨-, hbound⟩ | ⟨hlt, move, hmove, hend⟩
  · rw [isLiquidatableAt_of_exhausted hbound] at hmark
    cases hmark
  have hlt' : maintenance < more := by
    rw [lt_iff_units] at hlt ⊢
    rw [le_iff_units] at hmore
    omega
  rcases hform' with ⟨hle', -⟩ | ⟨-, move', hmove', hend'⟩
  · exact absurd hle' (Decimal.not_le.2 hlt')
  have hfurther := priceMove_mono hsize hlt hmore hmove hmove'
  rw [← Bool.not_eq_true] at hmark
  cases hside : p.side with
  | long =>
    rw [hside] at hend hend'
    rw [isLiquidatableAt_long hside, not_or, Decimal.not_le, lt_iff_units] at hmark
    have hle := le_iff_units.1 (moveFrom_long_anti hfurther hend hend')
    obtain ⟨floored, -, hfloor⟩ := moveFrom_long hend'
    have hpos := epsilon_pos
    rw [isLiquidatableAt_long (show (p.toppedUp more price).side = .long from hside)]
    refine iff_of_false ?_ nofun
    rw [not_or, Decimal.not_le, lt_iff_units]
    show ¬ price.units = 0 ∧ price.units < mark.units
    omega
  | short =>
    rw [hside] at hend hend'
    rw [isLiquidatableAt_short hside, not_or, not_not, Decimal.not_le] at hmark
    rw [isLiquidatableAt_short (show (p.toppedUp more price).side = .short from hside)]
    obtain ⟨hbelow, hmark⟩ := hmark
    have hle := moveFrom_short_mono hfurther hend hend' hbelow
    have haway : ¬ price ≤ mark := by
      rw [Decimal.not_le, lt_iff_units]
      rw [lt_iff_units] at hmark
      rw [le_iff_units] at hle
      omega
    show ¬ price < greatest ∨ price ≤ mark ↔ _
    rw [or_iff_left haway, and_iff_right rfl]

/-- A position with these terms; nothing else of it matters here. -/
def samplePosition (side : Side) (size : Decimal) (entry : Price) (collateral : Amount)
    (price : Decimal) : Position :=
  { id := ⟨1⟩, market := ⟨1⟩, owner := ⟨1⟩, side, size, collateral, entryPrice := entry
    leverage := ⟨5⟩, fundingIndex := .zero, accumulatedFunding := .zero, realizedPnl := .zero
    unrealizedPnl := .zero, liquidationPrice := price, openedAt := ⟨0⟩, updatedAt := ⟨0⟩ }

/-- A long position of size 10 at 2000 stays safe at 1990 when its collateral goes from 1500 to
1600. -/
theorem isLiquidatableAt_toppedUp_safe :
    ∃ price price',
      liquidationPrice .long (.ofUInt32 10) (.ofUInt32 2000) (.ofUInt32 1500) .standard
          = .ok price ∧
        liquidationPrice .long (.ofUInt32 10) (.ofUInt32 2000) (.ofUInt32 1600) .standard
          = .ok price' ∧
        ((samplePosition .long (.ofUInt32 10) (.ofUInt32 2000) (.ofUInt32 1500) price).toppedUp
          (.ofUInt32 1600) price').isLiquidatableAt (.ofUInt32 1990) = false := by
  obtain ⟨price, hprice, hsafe⟩ := exists_of_succeedsWith
    (fun price => !(samplePosition .long (.ofUInt32 10) (.ofUInt32 2000) (.ofUInt32 1500)
      price).isLiquidatableAt (.ofUInt32 1990))
    (x := liquidationPrice .long (.ofUInt32 10) (.ofUInt32 2000) (.ofUInt32 1500) .standard)
    (by decide +kernel)
  obtain ⟨price', hprice', -⟩ := exists_of_succeedsWith (fun _ => true)
    (x := liquidationPrice .long (.ofUInt32 10) (.ofUInt32 2000) (.ofUInt32 1600) .standard)
    (by decide +kernel)
  refine ⟨price, price', hprice, hprice', ?_⟩
  rw [Bool.not_eq_true'] at hsafe
  have hsize : zero < ofUInt32 10 := by decide
  have hmore : ofUInt32 1500 ≤ ofUInt32 1600 := by decide
  have hiff := isLiquidatableAt_toppedUp_iff hsize hprice hmore hprice' hsafe
  rw [← Bool.not_eq_true, hiff]
  exact fun h => nomatch h.1

/-- A size of 1e-18. -/
def sliver : Decimal :=
  Price.epsilon

/-- A short position of that size at 100 is safe there with a collateral of 1000, and is not
when 100000000000 more have been put behind it. -/
theorem isLiquidatableAt_toppedUp_saturated :
    (MarginTier.standard.defect? = none ∧ zero < sliver ∧
      ofUInt32 1000 ≤ ofUInt64 100000001000) ∧
    ∃ price price',
      liquidationPrice .short sliver (.ofUInt32 100) (.ofUInt32 1000) .standard = .ok price ∧
        liquidationPrice .short sliver (.ofUInt32 100) (.ofUInt64 100000001000) .standard
          = .ok price' ∧
        (samplePosition .short sliver (.ofUInt32 100) (.ofUInt32 1000) price).isLiquidatableAt
          (.ofUInt32 100) = false ∧
        ((samplePosition .short sliver (.ofUInt32 100) (.ofUInt32 1000) price).toppedUp
          (.ofUInt64 100000001000) price').isLiquidatableAt (.ofUInt32 100) = true := by
  obtain ⟨price, hprice, hsafe⟩ := exists_of_succeedsWith
    (fun price => !(samplePosition .short sliver (.ofUInt32 100) (.ofUInt32 1000)
      price).isLiquidatableAt (.ofUInt32 100))
    (x := liquidationPrice .short sliver (.ofUInt32 100) (.ofUInt32 1000) .standard)
    (by decide +kernel)
  obtain ⟨price', hprice', hreached⟩ := exists_of_succeedsWith
    (fun price => (samplePosition .short sliver (.ofUInt32 100) (.ofUInt64 100000001000)
      price).isLiquidatableAt (.ofUInt32 100))
    (x := liquidationPrice .short sliver (.ofUInt32 100) (.ofUInt64 100000001000) .standard)
    (by decide +kernel)
  rw [Bool.not_eq_true'] at hsafe
  exact ⟨by decide, price, price', hprice, hprice', hsafe, hreached⟩

end Clearing

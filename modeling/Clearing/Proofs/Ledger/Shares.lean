import Clearing.Proofs.Decimal.Value
import Clearing.Proofs.Ledger.Drift
import Clearing.Proofs.Ledger.Reduction

/-!
What a part of a position takes of its gain.

A part that is taken off returns its share of the gain by size, and the gain of the rest is worked
out anew from the size that is left.  In numbers the two make up the whole gain.  But every figure
on the way is rounded (`Splits`), and the two come from different formulas, so in decimals they
make it up only up to these roundings: `Share.surplus_eq` says what they come to, and `Splits.near`
how much that can be.  Where nothing needs to be rounded, nothing is created or lost
(`Splits.conserves`).
-/

namespace Clearing

open Decimal

/-- What is worked out when a part is taken off a position. -/
structure Share where
  /-- What each unit has gained. -/
  move : Decimal
  /-- What the whole position has gained. -/
  gain : Amount
  /-- That gain times the size of the part. -/
  product : Decimal
  /-- What the part returns. -/
  returned : Amount

namespace Position

variable {p p' : Position} {amount : Decimal} {mark : Price} {s : Share}

/-- What each unit of a position gains when the price goes to `mark`. -/
def moveTo (p : Position) (mark : Price) : Except ArithmeticError Decimal :=
  match p.side with
  | .long => mark.sub p.entryPrice "unrealized pnl"
  | .short => p.entryPrice.sub mark "unrealized pnl"

theorem pnlAt_eq_ok {pnl : Amount} :
    p.pnlAt mark = .ok pnl ↔
      ∃ move, p.moveTo mark = .ok move ∧ move.mul p.size "unrealized pnl" = .ok pnl := by
  unfold pnlAt Clearing.unrealizedPnl moveTo
  cases p.side <;> exact bind_eq_ok

/-- `p'` is what is left of `p` after `amount` was taken off it, with every figure rounded. -/
structure Splits (p p' : Position) (amount : Decimal) (s : Share) : Prop where
  gain : s.gain.IsRounded (s.move.value * p.size.value)
  product : s.product.IsRounded (s.gain.value * amount.value)
  returned : s.returned.IsRounded (s.product.value / p.size.value)
  size : p'.size.IsRounded (p.size.value - amount.value)
  ledger : p'.realizedPnl.IsRounded (p.realizedPnl.value + s.returned.value)
  remaining : p'.unrealizedPnl.IsRounded (s.move.value * p'.size.value)

/-- Taking `amount` off `p` creates and loses nothing. -/
structure Conserves (p p' : Position) (amount : Decimal) (s : Share) : Prop where
  size : p'.size.value = p.size.value - amount.value
  ledger : p'.realizedPnl.value = p.realizedPnl.value + s.returned.value
  gain : s.returned.value + p'.unrealizedPnl.value = s.gain.value

/-- No figure needs to be rounded. -/
structure SplitsEvenly (p : Position) (amount : Decimal) (s : Share) : Prop where
  gain : IsDecimal (s.move.value * p.size.value)
  product : IsDecimal (s.move.value * p.size.value * amount.value)
  returned : IsDecimal (s.move.value * amount.value)
  size : IsDecimal (p.size.value - amount.value)
  ledger : IsDecimal (p.realizedPnl.value + s.returned.value)
  remaining : IsDecimal (s.move.value * (p.size.value - amount.value))

/-- A split is even if the move of the price, the size and the amount have so few digits that their
product has room for all of theirs. -/
theorem SplitsEvenly.of_scale {j k : Nat} (hsize : p.size.scale ≤ j) (hamount : amount.scale ≤ j)
    (hmove : s.move.scale ≤ k) (hplaces : j + j + k ≤ maxScale)
    (hfits : (s.move.scaledTo k * p.size.scaledTo j * amount.scaledTo j).natAbs < coeffBound)
    (hroom : (p.size.scaledTo j).natAbs < coeffBound) (hpos : zero < amount)
    (hpart : amount < p.size)
    (hledger : IsDecimal (p.realizedPnl.value + s.returned.value)) : p.SplitsEvenly amount s := by
  have hsizeCount := value_mul_tenPow hsize (show j ≤ maxScale by omega)
  have hamountCount := value_mul_tenPow hamount (show j ≤ maxScale by omega)
  have hmoveCount := value_mul_tenPow hmove (show k ≤ maxScale by omega)
  have hpos' : 0 < amount.scaledTo j := by
    have hcount := mul_pos (value_pos.2 hpos) (cast_tenPow_pos j)
    rw [hamountCount] at hcount
    exact_mod_cast hcount
  have hpart' : amount.scaledTo j < p.size.scaledTo j := by
    have hcount := mul_lt_mul_of_pos_right (value_lt.2 hpart) (cast_tenPow_pos j)
    rw [hamountCount, hsizeCount] at hcount
    exact_mod_cast hcount
  generalize amount.scaledTo j = r, p.size.scaledTo j = n, s.move.scaledTo k = m at *
  have hrestCount : (p.size.value - amount.value) * tenPow j = (n - r : Int) := by
    rw [sub_mul, hsizeCount, hamountCount, Int.cast_sub]
  -- Each product of some of the three whole numbers has room, since all of them together have.
  have hproducts : (m * n).natAbs < coeffBound ∧ (m * r).natAbs < coeffBound ∧
      (m * (n - r)).natAbs < coeffBound := by
    rw [Int.natAbs_mul, Int.natAbs_mul] at hfits
    rw [Int.natAbs_mul, Int.natAbs_mul, Int.natAbs_mul]
    have hgain : m.natAbs * n.natAbs ≤ m.natAbs * n.natAbs * r.natAbs :=
      Nat.le_mul_of_pos_right _ (by omega)
    have hshare : m.natAbs * r.natAbs ≤ m.natAbs * n.natAbs :=
      Nat.mul_le_mul_left _ (by omega)
    have hrest : m.natAbs * (n - r).natAbs ≤ m.natAbs * n.natAbs :=
      Nat.mul_le_mul_left _ (by omega)
    omega
  obtain ⟨hgain, hshare, hrest⟩ := hproducts
  have hgainCount := count_mul hmoveCount hsizeCount
  exact {
    gain := isDecimal_of_scale hgain (by omega) hgainCount
    product := isDecimal_of_scale hfits (by omega) (count_mul hgainCount hamountCount)
    returned := isDecimal_of_scale hshare (by omega) (count_mul hmoveCount hamountCount)
    size := isDecimal_of_scale (by omega) (by omega) hrestCount
    ledger := hledger
    remaining := isDecimal_of_scale hrest (by omega) (count_mul hmoveCount hrestCount) }

end Position

namespace Share

variable {p p' : Position} {amount : Decimal}

/-- How much more the returned share and the gain that remains are than the whole gain. -/
def surplus (s : Share) (p' : Position) : ℚ :=
  s.returned.value + p'.unrealizedPnl.value - s.gain.value

/-- How much the roundings may come to. -/
def tolerance (s : Share) (p p' : Position) (amount : Decimal) : ℚ :=
  Decimal.tolerance (s.product.value / p.size.value) +
    Decimal.tolerance (s.gain.value * amount.value) / p.size.value +
    Decimal.tolerance (s.move.value * p'.size.value) +
    |s.move.value| * Decimal.tolerance (p.size.value - amount.value) +
    Decimal.tolerance (s.move.value * p.size.value) * (1 - amount.value / p.size.value)

/-- The surplus is what the roundings come to, each for as much of the gain as it concerns. -/
theorem surplus_eq (s : Share) (p p' : Position) (amount : Decimal) (hsize : p.size.value ≠ 0) :
    s.surplus p' =
      (s.returned.value - s.product.value / p.size.value) +
        (s.product.value - s.gain.value * amount.value) / p.size.value +
        (p'.unrealizedPnl.value - s.move.value * p'.size.value) +
        s.move.value * (p'.size.value - (p.size.value - amount.value)) -
        (s.gain.value - s.move.value * p.size.value) * (1 - amount.value / p.size.value) := by
  unfold surplus
  field_simp
  ring

end Share

namespace Position

namespace Splits

variable {p p' : Position} {amount : Decimal} {s : Share}

theorem near (h : Splits p p' amount s) (hpos : zero < amount) (hpart : amount < p.size) :
    |s.surplus p'| ≤ s.tolerance p p' amount := by
  have hamount : 0 < amount.value := value_pos.2 hpos
  have hless : amount.value < p.size.value := value_lt.2 hpart
  have hsize : 0 < p.size.value := hamount.trans hless
  have hrest : 0 ≤ 1 - amount.value / p.size.value := by
    rw [sub_nonneg, div_le_one hsize]
    exact hless.le
  have hreturned := abs_le.1 h.returned.near
  have hremaining := abs_le.1 h.remaining.near
  have hproduct := abs_le.1 <|
    calc |(s.product.value - s.gain.value * amount.value) / p.size.value|
        = |s.product.value - s.gain.value * amount.value| / p.size.value := by
          rw [abs_div, abs_of_pos hsize]
      _ ≤ Decimal.tolerance (s.gain.value * amount.value) / p.size.value :=
          div_le_div_of_nonneg_right h.product.near hsize.le
  have hleft := abs_le.1 <|
    calc |s.move.value * (p'.size.value - (p.size.value - amount.value))|
        = |s.move.value| * |p'.size.value - (p.size.value - amount.value)| := abs_mul _ _
      _ ≤ |s.move.value| * Decimal.tolerance (p.size.value - amount.value) :=
          mul_le_mul_of_nonneg_left h.size.near (abs_nonneg _)
  have hgain := abs_le.1 <|
    calc |(s.gain.value - s.move.value * p.size.value) * (1 - amount.value / p.size.value)|
        = |s.gain.value - s.move.value * p.size.value| * (1 - amount.value / p.size.value) := by
          rw [abs_mul, abs_of_nonneg hrest]
      _ ≤ Decimal.tolerance (s.move.value * p.size.value) * (1 - amount.value / p.size.value) :=
          mul_le_mul_of_nonneg_right h.gain.near hrest
  rw [s.surplus_eq p p' amount hsize.ne', Share.tolerance, abs_le]
  constructor <;> linarith

theorem conserves (h : Splits p p' amount s) (hsize : p.size.value ≠ 0)
    (heven : p.SplitsEvenly amount s) : p.Conserves p' amount s := by
  have hgain : s.gain.value = s.move.value * p.size.value := h.gain.value_eq_iff.2 heven.gain
  have hproduct : s.product.value = s.move.value * p.size.value * amount.value := by
    have hround := h.product
    rw [hgain] at hround
    exact hround.value_eq_iff.2 heven.product
  have hreturned : s.returned.value = s.move.value * amount.value := by
    have hround := h.returned
    rw [hproduct, mul_right_comm, mul_div_cancel_right₀ _ hsize] at hround
    exact hround.value_eq_iff.2 heven.returned
  have hleft : p'.size.value = p.size.value - amount.value := h.size.value_eq_iff.2 heven.size
  have hremaining : p'.unrealizedPnl.value = s.move.value * (p.size.value - amount.value) := by
    have hround := h.remaining
    rw [hleft] at hround
    exact hround.value_eq_iff.2 heven.remaining
  refine ⟨hleft, h.ledger.value_eq_iff.2 heven.ledger, ?_⟩
  rw [hreturned, hremaining, hgain]
  ring

end Splits

end Position

namespace Ledger

variable {l next : Ledger} {id : PositionId} {p : Position} {amount : Decimal} {price : Price}
  {returned : Amount}

/-- `amount` was taken off a position at a price, by its owner, who may have changed its collateral
as well, or by force. -/
inductive TakesPart (l : Ledger) (id : PositionId) (amount : Decimal) (price : Price)
    (returned : Amount) (next : Ledger) : Prop
  | modified {collateralDelta : Amount} {schedule : MarginSchedule} {now : Instant}
      {notices : List Notice}
      (posted : l.modify id (-amount) collateralDelta price schedule now
        = .ok ⟨returned, next, notices⟩)
  | forced {schedule : MarginSchedule} {now : Instant} {reduction : Reduction}
      {notices : List Notice}
      (posted : l.forceReduce id amount price schedule now = .ok ⟨reduction, next, notices⟩)
      (returns : reduction.realizedPnl = returned)

/-- A part was taken off `p`, which was then written as `p'`. -/
structure Takes (p p' : Position) (amount : Decimal) (price : Price) (returned : Amount) :
    Prop where
  share : ∃ gain, p.pnlAt price = .ok gain ∧ proportionalPnl gain amount p.size = .ok returned
  size : p.size.sub amount "position size" = .ok p'.size
  ledger : p.realizedPnl.add returned "realized pnl" = .ok p'.realizedPnl
  side : p'.side = p.side
  entryPrice : p'.entryPrice = p.entryPrice
  remaining : p'.pnlAt price = .ok p'.unrealizedPnl

/-- Whatever else of a position is changed with its size, a part was taken. -/
theorem takes_of_amend (hstored : l.Stored) (hp : l.position? id = some p) {updated : Position}
    {tier : MarginTier} {now : Instant} {notice : Notice}
    (hamend : l.amend p updated price tier now = .ok (next, notice))
    (hsame : updated.identity = p.identity) (hentry : updated.entryPrice = p.entryPrice)
    (hshare : ∃ gain, p.pnlAt price = .ok gain ∧ proportionalPnl gain amount p.size = .ok returned)
    (hsize : p.size.sub amount "position size" = .ok updated.size)
    (htotal : p.realizedPnl.add returned "realized pnl" = .ok updated.realizedPnl) :
    ∃ p', next.position? id = some p' ∧ Takes p p' amount price returned := by
  obtain ⟨liquidation, pnl, -, hamends⟩ := amend_eq_ok hamend
  have hid : id = updated.id := (hstored id p hp).symm.trans (Position.id_eq_of_identity hsame).symm
  have hwritten := hamends.position? id
  rw [if_pos hid] at hwritten
  exact ⟨_, hwritten, hshare, hsize, htotal, Position.side_eq_of_identity hsame, hentry,
    hamends.marked⟩

theorem takePart_takes (hstored : l.Stored) (hp : l.position? id = some p)
    {schedule : MarginSchedule} {now : Instant} {posted : Posted Amount}
    (h : l.takePart p amount price schedule now = .ok posted) :
    ∃ p', posted.ledger.position? id = some p' ∧ Takes p p' amount price posted.result := by
  unfold takePart at h
  split at h
  · simp only [bind_eq_ok, computing, refusing_eq_ok, pure_eq_ok] at h
    obtain ⟨gain, hgain, realized, hrealized, size, hsize, total, htotal, ⟨next, notice⟩, hamend,
      rfl⟩ := h
    exact takes_of_amend hstored hp hamend rfl rfl ⟨gain, hgain, hrealized⟩ hsize htotal
  · exact absurd h refuse_ne_ok

theorem modify_takes (hstored : l.Stored) (hp : l.position? id = some p) (hpos : zero < amount)
    (hpart : amount < p.size) {collateralDelta : Amount} {schedule : MarginSchedule}
    {now : Instant} {posted : Posted Amount}
    (h : l.modify id (-amount) collateralDelta price schedule now = .ok posted) :
    ∃ p', posted.ledger.position? id = some p' ∧ Takes p p' amount price posted.result := by
  obtain ⟨current, tier, gain, resized, realized, collateral, total, next, notice, hcurrent, -,
    hgain, hresize, -, htotal, hamend, rfl⟩ := modify_amends h
  obtain rfl : current = p := Option.some.inj (hcurrent.symm.trans hp)
  simp only [resize_neg hpos hpart, bind_eq_ok, computing, refusing_eq_ok, pure_eq_ok,
    Prod.mk.injEq] at hresize
  obtain ⟨_, hrealized, size, hsize, rfl, rfl⟩ := hresize
  exact takes_of_amend hstored hp hamend rfl rfl ⟨gain, hgain, hrealized⟩ hsize htotal

theorem TakesPart.takes (hstored : l.Stored) (hp : l.position? id = some p) (hpos : zero < amount)
    (hpart : amount < p.size) (h : l.TakesPart id amount price returned next) :
    ∃ p', next.position? id = some p' ∧ Takes p p' amount price returned := by
  cases h with
  | modified hposted => exact modify_takes hstored hp hpos hpart hposted
  | forced hposted hreturns =>
    rw [forceReduce_eq_takePart hp hpos hpart, map_eq_ok] at hposted
    obtain ⟨posted, hposted, hforced⟩ := hposted
    obtain ⟨p', hp', htakes⟩ := takePart_takes hstored hp hposted
    cases hforced
    exact ⟨p', hp', hreturns ▸ htakes⟩

/-- The figures of a part that was taken are those of the numbers, each rounded. -/
theorem Takes.splits {p' : Position} (hsize : zero < p.size)
    (h : Takes p p' amount price returned) :
    ∃ s : Share, s.returned = returned ∧ p.moveTo price = .ok s.move ∧
      p.pnlAt price = .ok s.gain ∧ p.Splits p' amount s := by
  obtain ⟨gain, hgain, hshare⟩ := h.share
  unfold proportionalPnl at hshare
  rw [bind_eq_ok] at hshare
  obtain ⟨product, hproduct, hreturned⟩ := hshare
  obtain ⟨move, hmove, hwhole⟩ := Position.pnlAt_eq_ok.1 hgain
  obtain ⟨move', hmove', hremaining⟩ := Position.pnlAt_eq_ok.1 h.remaining
  obtain rfl : move = move' := by
    unfold Position.moveTo at hmove hmove'
    rw [h.side, h.entryPrice, hmove] at hmove'
    exact Except.ok.inj hmove'
  exact ⟨⟨move, gain, product, returned⟩, rfl, hmove, hgain, isRounded_mul hwhole,
    isRounded_mul hproduct, isRounded_div hreturned hsize, isRounded_sub h.size,
    isRounded_add h.ledger, isRounded_mul hremaining⟩

/-- **A part takes its share of the gain, up to rounding.**  The size, the ledger and the gain of
what is left are the numbers they should be, each rounded, and the share that is returned and the
gain that remains miss the whole gain by no more than these roundings.  Where nothing needs to be
rounded, nothing is created or lost. -/
theorem takesPart_splits {first : Nat} {ops : List Operation}
    {replies : List (Except Refusal Reply)} (hl : (startingAt first).run ops = .ok (replies, l))
    (hp : l.position? id = some p) (hpos : zero < amount) (hpart : amount < p.size)
    (h : l.TakesPart id amount price returned next) :
    ∃ p' s, next.position? id = some p' ∧ s.returned = returned ∧ p.moveTo price = .ok s.move ∧
      p.pnlAt price = .ok s.gain ∧ p.Splits p' amount s ∧
      (p'.size.value = p.size.value - amount.value ↔ IsDecimal (p.size.value - amount.value)) ∧
      (p'.realizedPnl.value = p.realizedPnl.value + returned.value ↔
        IsDecimal (p.realizedPnl.value + returned.value)) ∧
      |s.surplus p'| ≤ s.tolerance p p' amount ∧
      (p.SplitsEvenly amount s → p.Conserves p' amount s) := by
  have hindexed : l.WellIndexed := (WellIndexed.startingAt first).run hl
  have hsize : zero < p.size := value_pos.1 ((value_pos.2 hpos).trans (value_lt.2 hpart))
  obtain ⟨p', hp', htakes⟩ := h.takes hindexed.stored hp hpos hpart
  obtain ⟨s, rfl, hmove, hgain, hsplits⟩ := htakes.splits hsize
  exact ⟨p', s, hp', rfl, hmove, hgain, hsplits, hsplits.size.value_eq_iff,
    hsplits.ledger.value_eq_iff, hsplits.near hpos hpart,
    hsplits.conserves (value_pos.2 hsize).ne'⟩

/-- Half of a position that has gained 200 returns 100 and leaves the other 100. -/
theorem takesPart_splits_half :
    ∃ replies l p returned next p',
      (startingAt 1).run
        [.openPosition (sampleOrder ⟨1⟩ .long (.ofUInt32 10)) sampleSchedule .epoch]
          = .ok (replies, l) ∧
      l.position? ⟨1⟩ = some p ∧
      l.TakesPart ⟨1⟩ (.ofUInt32 5) (.ofUInt32 120) returned next ∧
      next.position? ⟨1⟩ = some p' ∧ p.pnlAt (.ofUInt32 120) = .ok (.ofUInt32 200) ∧
      returned.value = 100 ∧ p'.unrealizedPnl.value = 100 ∧ p'.size.value = 5 := by
  obtain ⟨⟨replies, l⟩, hl, htest⟩ := exists_of_succeedsWith
    (fun r : List (Except Refusal Reply) × Ledger => decide (∃ p ∈ r.2.position? ⟨1⟩,
      p.size = .ofUInt32 10 ∧ p.realizedPnl = zero ∧
      p.moveTo (.ofUInt32 120) = .ok (.ofUInt32 20) ∧
      p.pnlAt (.ofUInt32 120) = .ok (.ofUInt32 200) ∧
      succeedsWith (fun posted : Posted Amount => decide (posted.result = .ofUInt32 100))
        (r.2.modify ⟨1⟩ (-.ofUInt32 5) .zero (.ofUInt32 120) sampleSchedule .epoch) = true))
    (x := (startingAt 1).run
      [.openPosition (sampleOrder ⟨1⟩ .long (.ofUInt32 10)) sampleSchedule .epoch])
    (by decide +kernel)
  obtain ⟨p, hp, hsize, hrealized, hmove, hgain, htest⟩ := of_decide_eq_true htest
  obtain ⟨⟨returned, next, notices⟩, hposted, htest⟩ := exists_of_succeedsWith _ htest
  have hreturned := of_decide_eq_true htest
  have hpart : Decimal.ofUInt32 5 < p.size := by
    rw [hsize]
    decide
  obtain ⟨p', s, hp', hs, hsMove, hsGain, -, -, -, -, hconserves⟩ :=
    takesPart_splits hl hp (by decide) hpart (.modified hposted)
  have hsMove' : s.move = .ofUInt32 20 := Except.ok.inj (hsMove.symm.trans hmove)
  have hsGain' : s.gain = .ofUInt32 200 := Except.ok.inj (hsGain.symm.trans hgain)
  have heven : p.SplitsEvenly (.ofUInt32 5) s := by
    apply Position.SplitsEvenly.of_scale (j := 0) (k := 0)
    case hledger =>
      rw [hrealized, value_zero, zero_add]
      exact ⟨_, rfl⟩
    all_goals try simp only [hsize, hsMove']
    all_goals decide
  obtain ⟨hleft, -, htotal⟩ := hconserves heven
  have hten : p.size.value = 10 := by
    rw [hsize]
    decide +kernel
  have hhundred : returned.value = 100 := by
    rw [show returned = .ofUInt32 100 from hreturned]
    decide +kernel
  have hwhole : s.gain.value = 200 := by
    rw [hsGain']
    decide +kernel
  have hfive : (Decimal.ofUInt32 5).value = 5 := by decide +kernel
  rw [hs, hhundred, hwhole] at htotal
  rw [hten, hfive] at hleft
  exact ⟨replies, l, p, returned, next, p', hl, hp, .modified hposted, hp', hgain, hhundred,
    by linarith, by linarith⟩

/-- A third with one decimal less, as in `hundredThirds`. -/
def shortThird : Decimal :=
  { hundredThirds with coeff := 333333333333333333333333333, coeff_lt := by decide }

/-- The short third is taken off a hundred thirds at 200, and nothing is rounded; then a third is
taken off at 101.  Now the size and the ledger have a digit more than a decimal holds, and are
rounded; and the rounded size gains more than what the part left of the whole gain. -/
theorem takesPart_leaks :
    ∃ replies l p p' returned gain next notices,
      (startingAt 1).run
        [.openPosition (sampleOrder ⟨1⟩ .long hundredThirds) sampleSchedule .epoch,
          .modify ⟨1⟩ (-shortThird) .zero (.ofUInt32 200) sampleSchedule .epoch]
          = .ok (replies, l) ∧
      l.position? ⟨1⟩ = some p ∧ zero < third ∧ third < p.size ∧
      l.modify ⟨1⟩ (-third) .zero (.ofUInt32 101) sampleSchedule .epoch
        = .ok ⟨returned, next, notices⟩ ∧
      next.position? ⟨1⟩ = some p' ∧ p.pnlAt (.ofUInt32 101) = .ok gain ∧
      p'.size.value ≠ p.size.value - third.value ∧
      p'.realizedPnl.value ≠ p.realizedPnl.value + returned.value ∧
      returned.value + p'.unrealizedPnl.value ≠ gain.value := by
  obtain ⟨⟨replies, l⟩, hl, htest⟩ := exists_of_succeedsWith
    (fun r : List (Except Refusal Reply) × Ledger => succeedsWith
      (fun posted : Posted Amount => decide (∃ p ∈ r.2.position? ⟨1⟩,
        ∃ p' ∈ posted.ledger.position? ⟨1⟩, third < p.size ∧
          p'.size.value ≠ p.size.value - third.value ∧
          p'.realizedPnl.value ≠ p.realizedPnl.value + posted.result.value ∧
          succeedsWith (fun gain => decide
            (posted.result.value + p'.unrealizedPnl.value ≠ gain.value))
            (p.pnlAt (.ofUInt32 101)) = true))
      (r.2.modify ⟨1⟩ (-third) .zero (.ofUInt32 101) sampleSchedule .epoch))
    (x := (startingAt 1).run
      [.openPosition (sampleOrder ⟨1⟩ .long hundredThirds) sampleSchedule .epoch,
        .modify ⟨1⟩ (-shortThird) .zero (.ofUInt32 200) sampleSchedule .epoch])
    (by decide +kernel)
  obtain ⟨⟨returned, next, notices⟩, hposted, htest⟩ := exists_of_succeedsWith _ htest
  obtain ⟨p, hp, p', hp', hpart, hsize, hledger, hgain⟩ := of_decide_eq_true htest
  obtain ⟨gain, hpnl, hleak⟩ := exists_of_succeedsWith _ hgain
  exact ⟨replies, l, p, p', returned, gain, next, notices, hl, hp, by decide, hpart, hposted, hp',
    hpnl, hsize, hledger, of_decide_eq_true hleak⟩

end Ledger

end Clearing

import Clearing.Proofs.Ledger.Continuity
import Clearing.Proofs.Ledger.Underflow
import Clearing.Proofs.Position.Liquidation

/-!
Unchecked sums that stay in range.

Sums are checked nearly everywhere.  The price of a long position is one of the places where they
are not: how far the price may move is taken off the entry price.  The difference of two decimals
that are not below zero is always a decimal, so nothing can stop there as long as entry prices and
sizes are what they should be.  `InRange` says that they are, and that open interest is not below
zero, which keeps the skew of the funding rate in range for the same reason.  Every step keeps it,
whatever is asked for.
-/

namespace Clearing

open Decimal

/-- The position has a size, and was not entered at a price below zero. -/
structure Position.InRange (p : Position) : Prop where
  size_pos : zero < p.size
  entryPrice_nonneg : 0 ≤ p.entryPrice.units

theorem Position.InRange.after {p current : Position} (h : current.InRange)
    (hsize : zero < current.size → zero < p.size)
    (hentry : p.entryPrice = current.entryPrice ∨ zero < p.entryPrice) : p.InRange := by
  refine ⟨hsize h.size_pos, ?_⟩
  rcases hentry with hsame | hpos
  · rw [hsame]
    exact h.entryPrice_nonneg
  · exact Int.le_of_lt (zero_lt_iff.1 hpos)

theorem liquidationPrice_neverStops (side : Side) {size : Decimal} (hsize : zero < size)
    {entry : Price} (hentry : 0 ≤ entry.units) (collateral : Amount) (tier : MarginTier) :
    NeverStops (liquidationPrice side size entry collateral tier) := by
  unfold liquidationPrice
  refine .bind .refusing fun notional hnotional => ?_
  refine .bind .refusing fun maintenance hmaintenance => ?_
  dsimp only
  split
  · exact .ok _
  · rename_i hexceeds
    refine .bind .refusing fun buffer hbuffer => ?_
    cases side with
    | short => exact .ok _
    | long =>
      have hmove : priceMove size collateral maintenance
          = .ok ((buffer.div? size).getD .greatest) := by
        rw [priceMove, bind_eq_ok]
        exact ⟨buffer, refusing_eq_ok.1 hbuffer, rfl⟩
      exact .bind (neverStops_subOrStop hentry (priceMove_nonneg hsize (not_le.1 hexceeds) hmove))
        fun _ _ => .ok _

theorem fundingRate_neverStops {oi : OpenInterest} (hoi : ∀ side, 0 ≤ (oi.onSide side).units)
    (maxRate : Bps) : NeverStops (fundingRate oi maxRate) := by
  unfold fundingRate
  refine .bind .refusing fun total _ => ?_
  split
  · exact .ok _
  · refine .bind (neverStops_subOrStop (hoi .long) (hoi .short)) fun skew _ => ?_
    refine .bind .refusing fun imbalance _ => .bind .refusing fun raw _ => ?_
    split
    · exact .ok _
    · exact .refuse _

namespace Ledger

/-- Every position is in range, and no open interest is below zero. -/
structure InRange (l : Ledger) : Prop where
  positions : ∀ id p, l.position? id = some p → p.InRange
  interest : ∀ market side, 0 ≤ ((l.openInterest market).onSide side).units

variable {l next : Ledger}

/-! ### Steps -/

namespace InRange

theorem startingAt (first : Nat) : (Ledger.startingAt first).InRange where
  positions := fun _ _ h => by cases h
  interest := InterestNonneg.startingAt first

theorem opens {p : Position} {now : Instant} {notice : Notice} (h : l.InRange)
    (hopens : Opens l p now notice next) (hentry : 0 ≤ p.entryPrice.units) : next.InRange := by
  refine ⟨fun id q hq => ?_, InterestNonneg.opens h.interest hopens⟩
  rw [hopens.position?] at hq
  split at hq
  · cases hq
    exact ⟨hopens.size_pos, hentry⟩
  · exact h.positions id q hq

/-- A step that upholds positions and hands out no number keeps them in range. -/
theorem change (h : l.InRange) (hupholds : l.Upholds next) (hchange : Change l next) :
    next.InRange where
  positions id p hp := by
    obtain ⟨current, hcurrent, hp⟩ := hupholds id p hp
    exact (h.positions id current hcurrent).after hp.size_pos hp.entryPrice
  interest := InterestNonneg.change h.interest hchange

theorem modify {id : PositionId} {sizeDelta : Decimal} {collateralDelta : Amount} {price : Price}
    {schedule : MarginSchedule} {now : Instant} {posted : Posted Amount} (h : l.InRange)
    (hstored : l.Stored)
    (hx : l.modify id sizeDelta collateralDelta price schedule now = .ok posted) :
    posted.ledger.InRange :=
  h.change (modify_upholds hstored hx) (modify_change hx)

theorem closes {id : PositionId} {p : Position} {now : Instant} (h : l.InRange)
    (hcloses : Closes l id p now next) : next.InRange :=
  h.change hcloses.upholds (.closed hcloses)

theorem forceReduce {id : PositionId} {amount : Decimal} {price : Price}
    {schedule : MarginSchedule} {now : Instant} {posted : Posted Reduction} (h : l.InRange)
    (hstored : l.Stored) (hx : l.forceReduce id amount price schedule now = .ok posted) :
    posted.ledger.InRange :=
  h.change (forceReduce_upholds hstored hx) (forceReduce_change hx)

theorem refreshMarket {market : MarketId} {mark : Price} {now : Instant}
    {posted : Posted (List PositionId)} (h : l.InRange) (hstored : l.Stored)
    (hx : l.refreshMarket market mark now = .ok posted) : posted.ledger.InRange :=
  h.change (refreshMarket_upholds hstored hx) (.restated (refreshMarket_restates hstored hx))

theorem settle {b book : FundingBook} {market : MarketId} {now : Instant}
    {s : FundingSettlement} (h : l.InRange) (hx : b.settle market l now = .ok (s, book, next)) :
    next.InRange := by
  rcases FundingBook.settle_eq_ok hx with ⟨-, rfl⟩ | ⟨rate, periods, plan, index, -, hbooked, -⟩
  · exact h
  · exact h.change (applyFunding_upholds hbooked) (.restated (applyFunding_restates hbooked))

theorem execute {q left : DeleverageQueue} {schedule : MarginSchedule} {shortfall : Shortfall}
    {now : Instant} {coverage : Coverage} (h : l.InRange) (hindexed : l.WellIndexed)
    (hx : q.execute l schedule shortfall now = .ok (coverage, left, next)) : next.InRange := by
  refine (DeleverageQueue.execute_invariant (P := fun mid => mid.WellIndexed ∧ mid.InRange)
    (fun mid _ _ _ _ _ _ hmid hforced => ?_) hx ⟨hindexed, h⟩).2
  exact ⟨hmid.1.change (forceReduce_change hforced), hmid.2.forceReduce hmid.1.stored hforced⟩

end InRange

/-- The entry price that an operation names. -/
def Operation.entryPrice? : Operation → Option Price
  | .openPosition order _ _ => some order.entryPrice
  | _ => none

/-- An order names a price above zero.  Nothing is asked of other prices. -/
def Operation.Priced (op : Operation) : Prop :=
  ∀ price ∈ op.entryPrice?, zero < price

instance (op : Operation) : Decidable op.Priced :=
  inferInstanceAs (Decidable (∀ price ∈ _, _))

/-- Whatever else is asked for, priced orders leave a ledger in range. -/
theorem InRange.run {ops : List Operation} {replies : List (Except Refusal Reply)} {last : Ledger}
    (h : l.InRange) (hindexed : l.WellIndexed) (hpriced : ∀ op ∈ ops, op.Priced)
    (hrun : l.run ops = .ok (replies, last)) : last.InRange where
  positions := by
    refine run_positions (fun p order schedule now hpriced hentry hsize _ => ?_)
      (fun p current hcurrent hp => hcurrent.after hp.size_pos hp.entryPrice) h.positions hindexed
      hpriced hrun
    refine ⟨hsize, ?_⟩
    rw [hentry]
    exact Int.le_of_lt (zero_lt_iff.1 (hpriced order.entryPrice rfl))
  interest := InterestNonneg.run h.interest hindexed hrun

/-! ### Operations -/

theorem requireInitialMargin_neverStops {tier : MarginTier} {notional : Decimal}
    {collateral : Amount} : NeverStops (requireInitialMargin tier notional collateral) := by
  unfold requireInitialMargin
  refine .bind .refusing fun required _ => ?_
  split
  · exact .refuse _
  · exact .ok _

theorem openPosition_neverStops {order : Order} (hentry : 0 ≤ order.entryPrice.units)
    (schedule : MarginSchedule) (now : Instant) :
    NeverStops (l.openPosition order schedule now) := by
  unfold openPosition
  refine .bind .refusing fun tier htier => .bind .refusing fun notional _ => ?_
  have hsize := (acceptOrder_eq_ok (refusing_eq_ok.1 htier)).1
  refine .bind requireInitialMargin_neverStops fun _ _ => ?_
  refine .bind ((liquidationPrice_neverStops _ hsize hentry _ _).inTermsOf) fun price _ => ?_
  refine .bind .refusing fun oi _ => .bind .refusing fun portfolio _ => ?_
  exact .bind .refusing fun notice _ => .ok _

theorem amend_neverStops {current updated : Position} (hupdated : updated.InRange) {mark : Price}
    {tier : MarginTier} {now : Instant} :
    NeverStops (l.amend current updated mark tier now) := by
  unfold amend
  refine .bind ((liquidationPrice_neverStops _ hupdated.size_pos hupdated.entryPrice_nonneg _
    _).inTermsOf) fun price _ => ?_
  refine .bind .refusing fun pnl _ => .bind .refusing fun delta _ => ?_
  refine .bind .refusing fun oi _ => .bind .refusing fun portfolio _ => ?_
  exact .bind .refusing fun notice _ => .ok _

theorem resize_neverStops {current : Position} {sizeDelta : Decimal} {pnl : Amount}
    {price : Price} : NeverStops (resize current sizeDelta pnl price) := by
  unfold resize
  split
  · dsimp only
    split
    · exact .refuse _
    · exact .bind .refusing fun _ _ => .bind .refusing fun _ _ => .ok _
  · split
    · exact .bind .refusing fun _ _ => .bind .refusing fun _ _ => .ok _
    · exact .ok _

theorem modify_neverStops (h : l.InRange) (id : PositionId) (sizeDelta : Decimal)
    (collateralDelta : Amount) (price : Price) (schedule : MarginSchedule) (now : Instant) :
    NeverStops (l.modify id sizeDelta collateralDelta price schedule now) := by
  unfold modify
  refine .bind .refusing fun current hcurrent => ?_
  have hrange := h.positions id current (find_eq_ok.1 (refusing_eq_ok.1 hcurrent))
  dsimp only
  split
  · rename_i tier htier
    refine .bind .refusing fun pnl _ => .bind resize_neverStops ?_
    rintro ⟨resized, realized⟩ hresize
    have hcontinues := (resize_eq_ok hresize).1
    have hresized := hrange.after hcontinues.size_pos hcontinues.entryPrice
    refine .bind .refusing fun collateral _ => ?_
    -- With or without a check of the margin, this is what the call ends in.
    have hamend : ∀ total, NeverStops (l.amend current
        { resized with collateral := collateral, realizedPnl := total } price tier now) := by
      intro total
      have hupdated : { resized with collateral := collateral, realizedPnl := total }.InRange :=
        ⟨hresized.size_pos, hresized.entryPrice_nonneg⟩
      exact amend_neverStops hupdated
    dsimp only
    split
    · exact .refuse _
    split
    · refine .bind .refusing fun notional _ => ?_
      refine .bind requireInitialMargin_neverStops fun _ _ => ?_
      exact .bind .refusing fun total _ => .bind (hamend total) fun _ _ => .ok _
    · exact .bind .refusing fun total _ => .bind (hamend total) fun _ _ => .ok _
  · exact .refuse _

theorem close_neverStops {id : PositionId} {price : Price} {now : Instant} :
    NeverStops (l.close id price now) := by
  unfold close
  refine .bind .refusing fun p _ => .bind .refusing fun pnl _ => ?_
  refine .bind .refusing fun realized _ => .bind .refusing fun oi _ => ?_
  exact .bind .refusing fun portfolio _ => .ok _

theorem forceReduce_neverStops (h : l.InRange) (id : PositionId) (amount : Decimal)
    (price : Price) (schedule : MarginSchedule) (now : Instant) :
    NeverStops (l.forceReduce id amount price schedule now) := by
  unfold forceReduce
  split
  · exact .refuse _
  refine .bind .refusing fun current hcurrent => ?_
  have hrange := h.positions id current (find_eq_ok.1 (refusing_eq_ok.1 hcurrent))
  dsimp only
  split
  · exact .bind close_neverStops fun _ _ => .ok _
  · rename_i hless
    split
    · refine .bind .refusing fun pnl _ => .bind .refusing fun realized _ => ?_
      refine .bind .refusing fun size hsize => .bind .refusing fun total _ => ?_
      have hpos := sub_pos (refusing_eq_ok.1 hsize) (not_le.1 hless)
      have hupdated : { current with size := size, realizedPnl := total }.InRange :=
        ⟨hpos, hrange.entryPrice_nonneg⟩
      exact .bind (amend_neverStops hupdated) fun _ _ => .ok _
    · exact .refuse _

end Ledger

theorem FundingBook.settle_neverStops (b : FundingBook) (market : MarketId) {l : Ledger}
    (h : l.InRange) (now : Instant) : NeverStops (b.settle market l now) := by
  unfold settle
  refine .bind .refusing fun terms _ => ?_
  dsimp only
  split
  · exact .ok _
  split
  · exact .refuse _
  refine .bind ((fundingRate_neverStops (h.interest market) _).inTermsOf) fun rate _ => ?_
  refine .bind .refusing fun plan _ => .bind .refusing fun next _ => ?_
  exact .bind .refusing fun booked _ => .ok _

end Clearing

import Clearing.Event.Replay
import Clearing.Proofs.Funding.Settlement
import Clearing.Proofs.Ledger.Indices

/-!
The open positions as events could tell of them.

The holdings of a ledger are its positions with all that prices and averages make of them left
out.  A step changes them under one number, or not at all: marking a market never shows.  A batch
of payments is worked out from one ledger and then booked, which comes to the same as paying one
position after the other, since no position is in the batch twice.
-/

namespace Clearing

/-! ### Tables of holdings -/

namespace Holdings

variable {t : Holdings} {id : PositionId} {held next : Holding}

theorem enter_of_none (h : Table.get? t id = none) :
    t.enter id held = some (Table.insert t id held) := by
  unfold enter Table.contains
  rw [h]
  rfl

theorem leave_of_some (h : Table.get? t id = some held) : t.leave id = some (Table.erase t id) := by
  unfold leave Table.contains
  rw [h]
  rfl

theorem alter_of_some {change : Holding → Option Holding} (h : Table.get? t id = some held)
    (hchange : change held = some next) : t.alter id change = some (Table.insert t id next) := by
  unfold alter
  rw [h, Option.bind_some, hchange, Option.map_some]

/-- All of a size can be taken away. -/
theorem exists_reduce_size (held : Holding) : ∃ rest, held.reduce held.size = some rest := by
  have hrest : (held.size.sub? held.size).map Decimal.units = some 0 := by
    rw [Decimal.sub?_units, Int.sub_self]
    exact Decimal.rounded?_units .zero
  obtain ⟨rest, hsub, -⟩ := Option.map_eq_some_iff.1 hrest
  exact ⟨_, by rw [Holding.reduce, hsub, Option.map_some]⟩

end Holdings

namespace Ledger

/-- The open positions of a ledger, as far as events tell of them. -/
def holdings (l : Ledger) : Holdings :=
  l.entries.mapValues (·.position.holding)

variable {l next : Ledger}

theorem get?_holdings (l : Ledger) (id : PositionId) :
    Table.get? l.holdings id = (l.position? id).map Position.holding := by
  unfold holdings position?
  rw [Table.get?_mapValues, Option.map_map]
  rfl

theorem get?_holdings_of_held {id : PositionId} {p : Position} (h : l.position? id = some p) :
    Table.get? l.holdings id = some p.holding := by
  rw [get?_holdings, h, Option.map_some]

theorem holdings_congr
    (h : ∀ id, (next.position? id).map Position.holding = (l.position? id).map Position.holding) :
    next.holdings = l.holdings :=
  Table.ext_get? fun id => by rw [get?_holdings, get?_holdings, h]

theorem holdings_insert {p : Position}
    (h : ∀ id, next.position? id = if id = p.id then some p else l.position? id) :
    next.holdings = Table.insert l.holdings p.id p.holding :=
  Table.ext_get? fun id => by
    rw [get?_holdings, h, Table.get?_insert_eq, get?_holdings]
    split <;> rfl

theorem holdings_erase {id : PositionId}
    (h : ∀ other, next.position? other = if other = id then none else l.position? other) :
    next.holdings = Table.erase l.holdings id :=
  Table.ext_get? fun other => by
    rw [get?_holdings, h, Table.get?_erase_eq, get?_holdings]
    split <;> rfl

/-! ### Steps -/

/-- A changed position stays in the hands it was in. -/
theorem holding_of_amended {current p : Position} (hsame : p.identity = current.identity)
    (hfunding : p.accumulatedFunding = current.accumulatedFunding) :
    p.holding = { current.holding with size := p.size, collateral := p.collateral } := by
  unfold Position.holding
  rw [Position.market_eq_of_identity hsame, Position.owner_eq_of_identity hsame,
    Position.side_eq_of_identity hsame, hfunding]

theorem reduce_of_leftOf {current p : Position} {amount : Decimal}
    (hsame : p.identity = current.identity) (hleft : current.LeftOf p amount) :
    current.holding.reduce amount = some p.holding := by
  have hsize : current.holding.size.sub? amount = some p.size :=
    Decimal.orOverflow_eq_ok.1 hleft.size
  unfold Holding.reduce
  rw [hsize, Option.map_some, holding_of_amended hsame hleft.funding, hleft.collateral]
  rfl

/-- Marking a market shows in no holding. -/
theorem holdings_refreshMarket (hstored : l.Stored) {market : MarketId} {mark : Price}
    {now : Instant} {posted : Posted (List PositionId)}
    (h : l.refreshMarket market mark now = .ok posted) : posted.ledger.holdings = l.holdings :=
  holdings_congr fun id =>
    map_position?_refreshMarket hstored Position.holding (fun _ _ => rfl) h id

/-! ### Payments -/

theorem position?_bookFunding (index : Decimal) (now : Instant) (total : PositionId × Amount)
    {p : Position} (hp : l.position? total.1 = some p) (id : PositionId) :
    (bookFunding index now l total).position? id =
      if id = total.1 then
        some { p with accumulatedFunding := total.2, fundingIndex := index, updatedAt := now }
      else l.position? id := by
  obtain ⟨entry, hentry, rfl⟩ := Option.map_eq_some_iff.1 hp
  unfold bookFunding position?
  rw [hentry]
  dsimp only
  rw [Table.get?_insert_eq]
  split <;> rfl

/-- Booking one total shows in one holding. -/
theorem holdings_bookFunding (index : Decimal) (now : Instant) (total : PositionId × Amount)
    {p : Position} (hp : l.position? total.1 = some p) :
    (bookFunding index now l total).holdings
      = Table.insert l.holdings total.1 { p.holding with funding := total.2 } :=
  Table.ext_get? fun id => by
    rw [get?_holdings, position?_bookFunding index now total hp, Table.get?_insert_eq,
      get?_holdings]
    split <;> rfl

/-- Payments to different positions can be booked one after the other, though all of them were
worked out before the first. -/
theorem replay_bookings {payments totals : List (PositionId × Amount)}
    (h : List.Forall₂ (fun payment total => l.accumulated payment = .ok total) payments totals)
    (hnodup : (payments.map (·.1)).Nodup) (index : Decimal) (now : Instant) {mid : Ledger}
    (hmid : ∀ payment ∈ payments, mid.position? payment.1 = l.position? payment.1) :
    payments.foldlM (fun (t : Holdings) payment => t.alter payment.1 (Holding.pay payment.2))
      mid.holdings = some (totals.foldl (bookFunding index now) mid).holdings := by
  induction h generalizing mid with
  | nil => rfl
  | @cons payment total payments totals hfirst _ ih =>
    rw [List.map_cons, List.nodup_cons] at hnodup
    unfold accumulated at hfirst
    simp only [bind_eq_ok, find_eq_ok, mapError_eq_ok, pure_eq_ok] at hfirst
    obtain ⟨p, hp, sum, hsum, rfl⟩ := hfirst
    have hheld : mid.position? payment.1 = some p :=
      (hmid payment (List.mem_cons_self ..)).trans hp
    have hpay : p.holding.pay payment.2 = some { p.holding with funding := sum } := by
      have hadd : p.holding.funding.add? payment.2 = some sum := Decimal.orOverflow_eq_ok.1 hsum
      unfold Holding.pay
      rw [hadd, Option.map_some]
    have hbooked := holdings_bookFunding index now (payment.1, sum) hheld
    rw [List.foldlM_cons, Holdings.alter_of_some (get?_holdings_of_held hheld) hpay, ← hbooked,
      List.foldl_cons]
    -- The totals that are left were worked out from `l`, and their positions are still as in `l`.
    refine ih hnodup.2 fun other hother => ?_
    have hne : other.1 ≠ payment.1 := fun heq => hnodup.1 (heq ▸ List.mem_map_of_mem hother)
    have hothers := position?_bookFunding index now (payment.1, sum) hheld other.1
    rw [hothers, if_neg hne]
    exact hmid other (List.mem_cons_of_mem _ hother)

end Ledger

/-! ### Plans -/

namespace FundingPlan

/-- Every position of a market is on one side of it. -/
theorem onSide_append_perm (l : Ledger) (market : MarketId) (side : Side) :
    (onSide l market side ++ onSide l market side.opposite).Perm (l.positionsIn market) := by
  have hother : onSide l market side.opposite
      = (l.positionsIn market).filter fun p => !decide (p.side = side) :=
    List.filter_congr fun p _ => by cases p.side <;> cases side <;> rfl
  rw [hother]
  exact List.filter_append_perm ..

theorem ids_of_for {R : Position → FundingPayment → Prop}
    (hfor : ∀ p payment, R p payment → For p payment) {ps : List Position}
    {payments : List FundingPayment} (h : List.Forall₂ R ps payments) :
    payments.map (·.position) = ps.map (·.id) := by
  induction h with
  | nil => rfl
  | cons hfirst _ ih => rw [List.map_cons, List.map_cons, ih, (hfor _ _ hfirst).1]

/-- A plan names nobody, or exactly the open positions of the market. -/
theorem payments_perm {l : Ledger} (hindexed : l.WellIndexed) {market : MarketId} {rate : Bps}
    {periods : UInt64} {plan : FundingPlan} (h : make l market rate periods = .ok plan) :
    plan = nothing ∨ (plan.payments.map (·.position)).Perm (l.idsIn market) := by
  rcases make_eq_ok h with hnothing | ⟨paid, received, hplan, hpaid, hreceived, -⟩
  · exact .inl hnothing
  · have hids := (onSide_append_perm l market (payingSide rate)).map (·.id)
    rw [← hindexed.idsIn_eq_map, List.map_append,
      ← ids_of_for (fun _ _ hcharges => hcharges.madeOut) hpaid,
      ← ids_of_for (fun _ _ hmade => hmade) hreceived, ← List.map_append, ← hplan] at hids
    exact .inr hids

/-- No position is in a plan twice. -/
theorem payments_nodup {l : Ledger} (hindexed : l.WellIndexed) {market : MarketId} {rate : Bps}
    {periods : UInt64} {plan : FundingPlan} (h : make l market rate periods = .ok plan) :
    (plan.payments.map (·.position)).Nodup := by
  rcases payments_perm hindexed h with rfl | hids
  · exact List.nodup_nil
  · exact hids.nodup_iff.2 (Table.keys_nodup _)

end FundingPlan

end Clearing

import Clearing.House.Upkeep
import Clearing.Proofs.Funding.Conservation
import Clearing.Proofs.Ledger.Bookings

/-!
What a settlement writes, and what it leaves alone.

The plan walks the positions of the market twice, once for each side, and the ledger is written in
one batch afterwards, by number.  Because the index of the market holds every open number once, the
two walks together name every open position of the market once, and so the batch reaches each of
them once (`applyFunding_once`).  All that it writes is `Entry.booked`: what the position has
accumulated, the index it was brought to, and when.
-/

namespace Clearing

open Decimal

namespace Ledger

variable {l next : Ledger} {payments totals : List (PositionId × Amount)} {index : Decimal}
  {now : Instant} {id : PositionId} {amount : Amount}

/-- A list that has no position twice lists one amount for each of its positions. -/
theorem amountsFor_of_nodup (hnodup : (payments.map (·.1)).Nodup) (h : (id, amount) ∈ payments) :
    amountsFor payments id = [amount] := by
  induction payments with
  | nil => cases h
  | cons payment payments ih =>
    rw [List.map_cons, List.nodup_cons] at hnodup
    rw [amountsFor_cons]
    rcases List.mem_cons.1 h with rfl | hmem
    · rw [if_pos rfl, amountsFor_eq_nil_iff.2 hnodup.1]
    · have hne : payment.1 ≠ id := fun heq => hnodup.1 (heq ▸ List.mem_map_of_mem hmem)
      rw [if_neg hne, ih hnodup.2 hmem]

/-- What a batch that has no position twice writes: the entry of each listed position, once, and
nothing else. -/
structure BooksOnce (l next : Ledger) (payments : List (PositionId × Amount)) (index : Decimal)
    (now : Instant) : Prop where
  booked : ∀ id amount, (id, amount) ∈ payments → ∃ e total, l.entries.get? id = some e ∧
    e.position.accumulatedFunding.add amount "accumulated funding" = .ok total ∧
    next.entries.get? id = some (e.booked index now total)
  others : ∀ id, id ∉ payments.map (·.1) → next.entries.get? id = l.entries.get? id
  /-- Indices, open interest, portfolios and the next number stay as they are. -/
  rest : next = { l with entries := next.entries }

theorem applyFunding_once (h : l.applyFunding payments index now = .ok next)
    (hnodup : (payments.map (·.1)).Nodup) : BooksOnce l next payments index now := by
  obtain ⟨totals, htotals, rfl⟩ := applyFunding_eq_ok.1 h
  refine ⟨fun id amount hmem => ?_, fun id hid => ?_, bookings_eq index now totals l⟩
  · obtain ⟨_, -, haccumulated⟩ := exists_of_forall₂ htotals.flip hmem
    obtain ⟨p, -, hp, -, -⟩ := accumulated_eq_ok.1 haccumulated
    obtain ⟨e, he, rfl⟩ := Option.map_eq_some_iff.1 hp
    have hlisted := amountsFor_batch htotals hp
    rw [amountsFor_of_nodup hnodup hmem] at hlisted
    obtain ⟨total, rest, hadd, hnil, htotal⟩ := List.forall₂_cons_left_iff.1 hlisted
    cases List.forall₂_nil_left_iff.1 hnil
    refine ⟨e, total, he, hadd, ?_⟩
    rw [get?_bookings, he, htotal]
    rfl
  · have hnone : amountsFor totals id = [] :=
      amountsFor_eq_nil_iff.2 (by rwa [ids_batch htotals])
    rw [get?_bookings, hnone]
    exact Option.map_id' ..

end Ledger

open FundingPlan

/-! ### Plans -/

namespace FundingPlan

variable {l : Ledger} {market : MarketId} {rate : Bps} {periods : UInt64} {plan : FundingPlan}

theorem onSide_ascending (hindexed : l.WellIndexed) (market : MarketId) (side : Side) :
    (onSide l market side).Pairwise fun p q => p.id.val < q.id.val := by
  unfold onSide
  rw [hindexed.positionsIn_eq_filter]
  exact (hindexed.positions_ascending.filter _).filter _

/-- **A plan with payments has one for each open position of the market.** -/
theorem count_payments (hindexed : l.WellIndexed) (h : make l market rate periods = .ok plan)
    (hsome : plan.payments ≠ []) (id : PositionId) :
    (plan.payments.map (·.position)).count id =
      if (l.position? id).map (·.market) = some market then 1 else 0 := by
  rcases payments_perm hindexed h with rfl | hids
  · exact absurd rfl hsome
  · rw [hids.count_eq, hindexed.count_idsIn]

end FundingPlan

/-! ### Settlements -/

/-- What a settlement with payments did to a ledger. -/
structure FundingSettlement.Books (s : FundingSettlement) (market : MarketId) (l l' : Ledger)
    (index : Decimal) (now : Instant) : Prop where
  /-- First come the payers, each charged with what it owes, then the receivers. -/
  sides : ∃ paid received, s.payments = paid ++ received ∧
    List.Forall₂ (Charges s.rate s.periods) (onSide l market s.payer) paid ∧
    List.Forall₂ For (onSide l market s.payer.opposite) received
  ascending : ∀ side, (onSide l market side).Pairwise fun p q => p.id.val < q.id.val
  /-- Every open position of the market is named once, and no other. -/
  once : ∀ id, (s.payments.map (·.position)).count id =
    if (l.position? id).map (·.market) = some market then 1 else 0
  booked : Ledger.BooksOnce l l' (s.payments.map fun p => (p.position, p.amount)) index now

/-- The ledger and the book of a house are settled as they are by themselves, and its queue is not
touched. -/
theorem House.settleFunding_eq_ok {house after : House} {caller : AccountId} {market : MarketId}
    {settlement : FundingSettlement}
    (h : house.settleFunding caller market = .ok (settlement, after)) :
    house.funding.settle market house.ledger house.now
        = .ok (settlement, after.funding, after.ledger) ∧ after.queue = house.queue := by
  unfold settleFunding at h
  simp only [bind_eq_ok, inTermsOf_eq_ok, pure_eq_ok] at h
  obtain ⟨_, -, _, -, ⟨_, funding, ledger⟩, hsettle, heq⟩ := h
  cases heq
  exact ⟨hsettle, rfl⟩

namespace FundingBook

variable {b next : FundingBook} {market : MarketId} {l l' : Ledger} {now : Instant}
  {s : FundingSettlement}

/-- **What a settlement does to a ledger.**  Whatever was done to the ledger before, a settlement
that succeeds without payments leaves it as it is.  One with payments names every open position of
the market once, payers before receivers and both ascending, charges the payers with what they owe,
and adds to each position its own payment, at the new index of the market; nothing else changes.  A
house that settles does the same with its ledger, and its queue stays as it is. -/
theorem settle_books {first : Nat} {ops : List Ledger.Operation}
    {replies : List (Except Ledger.Refusal Ledger.Reply)}
    (hrun : (Ledger.startingAt first).run ops = .ok (replies, l))
    (h : b.settle market l now = .ok (s, next, l')) :
    (s.payments = [] → l' = l) ∧
    (s.payments ≠ [] → ∃ state, next.state? market = some state ∧
      s.Books market l l' state.cumulativeIndex now) ∧
    ∀ (house after : House) (caller : AccountId) (settlement : FundingSettlement),
      house.ledger = l → house.funding = b → house.now = now →
      house.settleFunding caller market = .ok (settlement, after) →
      settlement = s ∧ after.ledger = l' ∧ after.funding = next ∧ after.queue = house.queue := by
  have hindexed := (Ledger.WellIndexed.startingAt first).run hrun
  refine ⟨fun hnone => ?_, fun hsome => ?_,
    fun house after caller settlement hl hb hnow hcall => ?_⟩
  · cases settle_settled h with
    | idle => rfl
    | charged _ _ _ _ _ _ _ _ _ hbooked =>
      dsimp only at hnone
      rw [hnone] at hbooked
      exact (Except.ok.inj hbooked).symm
  · cases settle_settled h with
    | idle => exact absurd rfl hsome
    | charged _ _ _ _ _ _ _ hplan _ hbooked =>
      refine ⟨_, (state?_advance ..).trans (if_pos rfl), ?_, onSide_ascending hindexed market,
        count_payments hindexed hplan hsome, ?_⟩
      · rcases make_eq_ok hplan with rfl | ⟨paid, received, hplan, hpaid, hreceived, -⟩
        · exact absurd rfl hsome
        · exact ⟨paid, received, hplan, hpaid, hreceived⟩
      · refine Ledger.applyFunding_once hbooked ?_
        rw [List.map_map]
        exact payments_nodup hindexed hplan
  · obtain ⟨hsettle, hqueue⟩ := House.settleFunding_eq_ok hcall
    rw [hl, hb, hnow, h] at hsettle
    cases hsettle
    exact ⟨rfl, rfl, rfl, hqueue⟩

/-- One long pays three shorts, and each of the four is written once. -/
theorem settle_books_four :
    ∃ replies l s next l' state,
      (Ledger.startingAt 1).run (sampleRun 100 100 200) = .ok (replies, l) ∧
      sampleBook.settle ⟨1⟩ l ⟨28800000⟩ = .ok (s, next, l') ∧ s.payments.length = 4 ∧
      next.state? ⟨1⟩ = some state ∧ s.Books ⟨1⟩ l l' state.cumulativeIndex ⟨28800000⟩ := by
  obtain ⟨⟨replies, l⟩, hrun, htest⟩ := exists_of_succeedsWith
    (fun r => succeedsWith (fun r' => r'.1.payments.length = 4)
      (sampleBook.settle ⟨1⟩ r.2 ⟨28800000⟩))
    (x := (Ledger.startingAt 1).run (sampleRun 100 100 200)) (by decide +kernel)
  obtain ⟨⟨s, next, l'⟩, h, hseen⟩ := exists_of_succeedsWith _ htest
  have hfour : s.payments.length = 4 := of_decide_eq_true hseen
  obtain ⟨state, hstate, hbooks⟩ := (settle_books hrun h).2.1 fun hnone => by
    rw [hnone] at hfour
    cases hfour
  exact ⟨replies, l, s, next, l', state, hrun, h, hfour, hstate, hbooks⟩

end FundingBook

end Clearing

import Clearing.Proofs.Funding.Settlement
import Clearing.Proofs.Ledger.Underflow

/-!
Whether a settlement takes as much as it gives.

What the payers owe is added up to the pot, and the last receiver gets what is left of the pot
after the shares before.  Both sums are running totals, which round.  Only where neither has lost
anything that the last share does not bring back does a settlement net to zero to the last digit
(`settle_conserves_iff`); with ordinary sizes some do not (`settle_loses`).
-/

namespace Clearing

open Decimal

theorem Side.eq_or_eq_opposite (side other : Side) : side = other ∨ side = other.opposite := by
  cases side <;> cases other <;> decide

theorem Side.opposite_ne (side : Side) : side.opposite ≠ side := by
  cases side <;> decide

namespace FundingSettlement

/-- The side that pays in a settlement. -/
def payer (s : FundingSettlement) : Side :=
  FundingPlan.payingSide s.rate

/-- What the payers owe, in the order they are charged. -/
def owed (s : FundingSettlement) : List Int :=
  (s.payments.filter (·.side = s.payer)).map fun p => -p.amount.units

/-- What the receivers get, in the order they are paid. -/
def shares (s : FundingSettlement) : List Int :=
  (s.payments.filter (·.side = s.payer.opposite)).map (·.amount.units)

/-- The exact sum of all amounts. -/
def net (s : FundingSettlement) : Int :=
  (s.payments.map (·.amount.units)).sum

/-- The exact sum of what the payers pay. -/
def paid (s : FundingSettlement) : Int :=
  ((s.payments.filter (·.side = s.payer)).map fun p => (p.amount.units.natAbs : Int)).sum

/-- A settlement takes what it gives, and nothing where there is nobody to give it to. -/
structure Conserves (l : Ledger) (s : FundingSettlement) : Prop where
  net : s.net = 0
  paid : s.paid = s.totalPaid.units
  idle : FundingPlan.onSide l s.market s.payer.opposite = [] →
    ∀ p ∈ s.payments, p.amount.units = 0

/-- What is owed runs up to its sum, and what is left of it after the running total of the shares
before the last, rounded, is what is left after their sum.  Where nobody receives, nothing is
owed. -/
def SumsExactly (s : FundingSettlement) : Prop :=
  runningTotal 0 s.owed = some s.owed.sum ∧
    if s.shares = [] then s.owed.sum = 0
    else (runningTotal 0 s.shares.dropLast).bind (fun total => rounded? (s.owed.sum - total))
      = some (s.owed.sum - s.shares.dropLast.sum)

instance (s : FundingSettlement) : Decidable s.SumsExactly :=
  inferInstanceAs (Decidable (_ ∧ _))

variable {s : FundingSettlement}

/-! ### Payers and receivers -/

/-- Every payment is one of a payer or one of a receiver. -/
theorem net_eq (s : FundingSettlement) : s.net = s.shares.sum - s.owed.sum := by
  unfold net shares owed
  induction s.payments with
  | nil => rfl
  | cons p rest ih =>
    have hne := Side.opposite_ne s.payer
    rw [List.map_cons, List.sum_cons, ih]
    rcases Side.eq_or_eq_opposite p.side s.payer with h | h
    · rw [List.filter_cons_of_neg (by simp [h, hne.symm]), List.filter_cons_of_pos (by simp [h]),
        List.map_cons, List.sum_cons]
      omega
    · rw [List.filter_cons_of_pos (by simp [h]), List.filter_cons_of_neg (by simp [h, hne]),
        List.map_cons, List.sum_cons]
      omega

theorem paid_eq (h : ∀ n ∈ s.owed, 0 ≤ n) : s.paid = s.owed.sum := by
  unfold paid owed at *
  congr 1
  refine List.map_congr_left fun p hp => ?_
  have := h _ (List.mem_map_of_mem hp)
  omega

theorem amount_eq_zero (howed : ∀ n ∈ s.owed, n = 0) (hshares : s.shares = [])
    {p : FundingPayment} (hp : p ∈ s.payments) : p.amount.units = 0 := by
  rcases Side.eq_or_eq_opposite p.side s.payer with h | h
  · have := howed _ (List.mem_map_of_mem (List.mem_filter.2 ⟨hp, by simp [h]⟩))
    omega
  · have hmem : p.amount.units ∈ s.shares :=
      List.mem_map_of_mem (List.mem_filter.2 ⟨hp, by simp [h]⟩)
    rw [hshares] at hmem
    cases hmem

/-- Payments of payers, then of receivers, are told apart by side. -/
theorem filter_sides {payer : Side} {paid received : List FundingPayment}
    (hpaid : ∀ p ∈ paid, p.side = payer) (hreceived : ∀ p ∈ received, p.side = payer.opposite) :
    (paid ++ received).filter (·.side = payer) = paid ∧
      (paid ++ received).filter (·.side = payer.opposite) = received := by
  have hne := Side.opposite_ne payer
  have hkeep : ∀ a : Side, ∀ ps : List FundingPayment, (∀ p ∈ ps, p.side = a) →
      ps.filter (·.side = a) = ps :=
    fun a ps h => List.filter_eq_self.2 fun p hp => by simp [h p hp]
  have hdrop : ∀ a b : Side, a ≠ b → ∀ ps : List FundingPayment, (∀ p ∈ ps, p.side = a) →
      ps.filter (·.side = b) = [] :=
    fun a b hab ps h => List.filter_eq_nil_iff.2 fun p hp => by simp [h p hp, hab]
  rw [List.filter_append, List.filter_append, hkeep _ paid hpaid, hdrop _ _ hne received hreceived,
    hdrop _ _ hne.symm paid hpaid, hkeep _ received hreceived, List.append_nil, List.nil_append]
  exact ⟨rfl, rfl⟩

theorem owed_and_shares {paid received : List FundingPayment}
    (hpayments : s.payments = paid ++ received) (hpaid : ∀ p ∈ paid, p.side = s.payer)
    (hreceived : ∀ p ∈ received, p.side = s.payer.opposite) :
    s.owed = paid.map (fun p => -p.amount.units) ∧ s.shares = received.map (·.amount.units) := by
  obtain ⟨hpayers, hreceivers⟩ := filter_sides hpaid hreceived
  unfold owed shares
  rw [hpayments, hpayers, hreceivers]
  exact ⟨rfl, rfl⟩

/-- How the payments of a settlement came about. -/
structure Settles (l : Ledger) (s : FundingSettlement) : Prop where
  owed_nonneg : ∀ n ∈ s.owed, 0 ≤ n
  pot : runningTotal 0 s.owed = some s.totalPaid.units
  receivers : s.shares.length = (FundingPlan.onSide l s.market s.payer.opposite).length ∨
    s.payments = []
  rest : s.shares = [] ∨ ∃ shares last total, s.shares = shares ++ [last] ∧
    runningTotal 0 shares = some total ∧ rounded? (s.totalPaid.units - total) = some last

theorem Settles.nothing {l : Ledger} (hpayments : s.payments = []) (htotal : s.totalPaid = zero) :
    s.Settles l := by
  have howed : s.owed = [] := by simp [owed, hpayments]
  have hshares : s.shares = [] := by simp [shares, hpayments]
  refine ⟨?_, ?_, .inr hpayments, .inl hshares⟩
  · rw [howed]
    exact nofun
  · rw [howed, htotal]
    rfl

end FundingSettlement

open FundingSettlement FundingPlan

theorem fundingOwed_nonneg {size : Decimal} {rate : Bps} {periods : UInt64} {owed : Amount}
    (h : fundingOwed size rate periods = .ok owed) (hsize : zero < size) : 0 ≤ owed.units := by
  unfold fundingOwed at h
  simp only [bind_eq_ok] at h
  obtain ⟨perPeriod, hper, total, htotal, hdiv⟩ := h
  have hper := not_negative_of_mul hper (not_negative_of_pos hsize) rfl
  exact units_nonneg (not_negative_of_div hdiv (not_negative_of_mul htotal hper rfl) rfl)

theorem side_of_mem {l : Ledger} {market : MarketId} {side : Side} {payments : List FundingPayment}
    (h : List.Forall₂ For (onSide l market side) payments) {p : FundingPayment}
    (hp : p ∈ payments) : p.side = side := by
  obtain ⟨q, hq, hfor⟩ := exists_of_forall₂ h hp
  rw [hfor.2.2]
  exact of_decide_eq_true (List.mem_filter.1 hq).2

namespace FundingBook

variable {b next : FundingBook} {market : MarketId} {l l' : Ledger} {now : Instant}
  {s : FundingSettlement}

/-- A settlement of a ledger with sizes above zero comes about as settlements do. -/
theorem settle_settles (hsized : l.Sized) (h : b.settle market l now = .ok (s, next, l')) :
    s.Settles l := by
  rcases settle_eq_ok h with ⟨rfl, -⟩ | ⟨rate, periods, plan, index, hplan, -, rfl⟩
  · exact .nothing rfl rfl
  · rcases make_eq_ok hplan with rfl | ⟨paid, received, hpayments, hpayers, hreceivers, hpot, hrest⟩
    · exact .nothing rfl rfl
    · obtain ⟨howed, hshares⟩ := owed_and_shares
        (s := ⟨market, rate, periods, plan.payments, plan.totalPaid, now⟩) hpayments
        (fun p => side_of_mem (hpayers.imp fun _ _ h => h.madeOut))
        (fun p => side_of_mem hreceivers)
      refine ⟨?_, ?_, .inl ?_, ?_⟩
      · rw [howed]
        intro n hn
        obtain ⟨p, hp, rfl⟩ := List.mem_map.1 hn
        obtain ⟨q, hq, hcharges⟩ := exists_of_forall₂ hpayers hp
        obtain ⟨amount, hamount, heq⟩ := hcharges.owed
        obtain ⟨id, -, hheld⟩ := List.mem_filterMap.1 (List.mem_filter.1 hq).1
        rw [heq, units_neg, Int.neg_neg]
        exact fundingOwed_nonneg hamount (hsized id q hheld)
      · rw [howed]
        exact hpot
      · rw [hshares, List.length_map]
        exact hreceivers.length_eq.symm
      · rw [hshares]
        rcases hrest with rfl | ⟨init, last, total, rfl, hrun, hlast⟩
        · exact .inl rfl
        · refine .inr ⟨init.map (·.amount.units), last.amount.units, total, ?_, hrun, hlast⟩
          rw [List.map_append, List.map_singleton]

/-- **When a settlement conserves.**  Whatever was done to the ledger before, a settlement that
succeeds nets to zero to the last digit, takes what it says it takes, and takes nothing where
nobody receives, just where its two running totals come out. -/
theorem settle_conserves_iff {first : Nat} {ops : List Ledger.Operation}
    {replies : List (Except Ledger.Refusal Ledger.Reply)}
    (hrun : (Ledger.startingAt first).run ops = .ok (replies, l))
    (h : b.settle market l now = .ok (s, next, l')) : s.Conserves l ↔ s.SumsExactly := by
  have hsized := ((Ledger.Sound.startingAt first).run hrun).sized
  obtain ⟨howed, hpot, hreceivers, hrest⟩ := settle_settles hsized h
  have hnet := net_eq s
  have hpaid := paid_eq howed
  constructor
  · rintro ⟨hzero, htotal, -⟩
    have hsum : s.owed.sum = s.totalPaid.units := by omega
    refine ⟨by rw [hsum]; exact hpot, ?_⟩
    rcases hrest with hnone | ⟨shares, last, total, hshares, hrun, hlast⟩
    · rw [if_pos hnone]
      rw [hnone] at hnet
      simp only [List.sum_nil] at hnet
      omega
    · rw [hshares, List.sum_append, List.sum_singleton] at hnet
      rw [hshares, if_neg (by simp), List.dropLast_concat, hrun, Option.bind_some, hsum, hlast,
        Option.some.injEq]
      omega
  · rintro ⟨hsum, hshare⟩
    rw [hpot, Option.some.injEq] at hsum
    have hzero : s.shares = [] → s.owed.sum = 0 := fun hnone => by rwa [if_pos hnone] at hshare
    refine ⟨?_, by omega, fun hidle p hp => ?_⟩
    · rcases hrest with hnone | ⟨shares, last, total, hshares, hrun, hlast⟩
      · rw [hnet, hzero hnone, hnone]
        rfl
      · rw [hshares, if_neg (by simp), List.dropLast_concat, hrun, Option.bind_some, ← hsum, hlast,
          Option.some.injEq] at hshare
        rw [hnet, hshares, List.sum_append, List.sum_singleton]
        omega
    · have hnone : s.shares = [] := by
        rcases hreceivers with hlength | hnothing
        · rw [hidle] at hlength
          exact List.length_eq_zero_iff.1 hlength
        · simp [shares, hnothing]
      have hnothing : ∀ n ∈ s.owed, n = 0 := fun n hn =>
        List.all_zero_of_le_zero_le_of_sum_eq_zero howed (hzero hnone) hn
      exact amount_eq_zero hnothing hnone hp

/-- Funding on standard terms in the market of the samples, from the epoch on. -/
def sampleBook : FundingBook :=
  ⟨Table.empty.insert ⟨1⟩ .standard, Table.empty.insert ⟨1⟩ (.start .epoch)⟩

/-- One long pays three shorts. -/
def sampleRun (first second third : UInt32) : List Ledger.Operation :=
  [.openPosition (Ledger.sampleOrder ⟨1⟩ .long (.ofUInt32 1000)) Ledger.sampleSchedule .epoch,
    .openPosition (Ledger.sampleOrder ⟨2⟩ .short (.ofUInt32 first)) Ledger.sampleSchedule .epoch,
    .openPosition (Ledger.sampleOrder ⟨3⟩ .short (.ofUInt32 second)) Ledger.sampleSchedule .epoch,
    .openPosition (Ledger.sampleOrder ⟨4⟩ .short (.ofUInt32 third)) Ledger.sampleSchedule .epoch]

/-- Shares of a quarter, a quarter and a half. -/
theorem settle_conserves_quarters :
    ∃ replies l s next l', (Ledger.startingAt 1).run (sampleRun 100 100 200) = .ok (replies, l) ∧
      sampleBook.settle ⟨1⟩ l ⟨28800000⟩ = .ok (s, next, l') ∧ s.shares.length = 3 ∧
      s.Conserves l := by
  obtain ⟨⟨replies, l⟩, hrun, htest⟩ := exists_of_succeedsWith
    (fun r => succeedsWith (fun r' => r'.1.shares.length = 3 ∧ r'.1.SumsExactly)
      (sampleBook.settle ⟨1⟩ r.2 ⟨28800000⟩))
    (x := (Ledger.startingAt 1).run (sampleRun 100 100 200)) (by decide +kernel)
  obtain ⟨⟨s, next, l'⟩, h, hseen⟩ := exists_of_succeedsWith _ htest
  obtain ⟨hthree, hexact⟩ := of_decide_eq_true hseen
  exact ⟨replies, l, s, next, l', hrun, h, hthree, (settle_conserves_iff hrun h).2 hexact⟩

/-- Shares of 1, 298 and 1 in 300 have different scales.  The running total drops the last digit of
the first, and the last share does not make up for it. -/
theorem settle_loses :
    FundingBook.empty.configure ⟨1⟩ .standard .epoch = .ok (none, sampleBook) ∧
    ∃ replies l s next l', (Ledger.startingAt 1).run (sampleRun 1 298 1) = .ok (replies, l) ∧
      sampleBook.settle ⟨1⟩ l ⟨28800000⟩ = .ok (s, next, l') ∧
      s.net = -3 ∧ ¬ s.Conserves l := by
  refine ⟨rfl, ?_⟩
  obtain ⟨⟨replies, l⟩, hrun, htest⟩ := exists_of_succeedsWith
    (fun r => succeedsWith (fun r' => r'.1.net = -3) (sampleBook.settle ⟨1⟩ r.2 ⟨28800000⟩))
    (x := (Ledger.startingAt 1).run (sampleRun 1 298 1)) (by decide +kernel)
  obtain ⟨⟨s, next, l'⟩, h, hseen⟩ := exists_of_succeedsWith _ htest
  have hnet : s.net = -3 := of_decide_eq_true hseen
  refine ⟨replies, l, s, next, l', hrun, h, hnet, fun hconserves => ?_⟩
  have hzero := hconserves.net
  omega

end FundingBook

end Clearing

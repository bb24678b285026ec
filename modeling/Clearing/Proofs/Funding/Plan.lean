import Clearing.Funding.Book
import Clearing.Proofs.Decimal.Checked
import Mathlib.Data.List.Forall2

/-!
What a funding plan is made of.

The payers are the positions on one side of the market, the receivers those on the other, each
with one payment and in the order of their numbers (`make_eq_ok`).  What the payers owe runs up to
the pot, and what the receivers get before the last of them runs up to what is taken off the pot.
Both running totals round at every step: `runningTotal` says how.
-/

namespace Clearing

namespace Decimal

/-- Adds counts one by one, and rounds after each. -/
def runningTotal : Int → List Int → Option Int
  | total, [] => some total
  | total, n :: rest => (rounded? (total + n)).bind fun next => runningTotal next rest

/-- Nothing is lost where every partial sum is the count of a decimal. -/
theorem runningTotal_of_representable (total : Int) (xs : List Int)
    (h : ∀ k, Representable (total + (xs.take k).sum)) :
    runningTotal total xs = some (total + xs.sum) := by
  induction xs generalizing total with
  | nil => simp [runningTotal]
  | cons x xs ih =>
    have hfirst : Representable (total + x) := by simpa using h 1
    rw [runningTotal, rounded?_of_representable hfirst, Option.bind_some, ih, List.sum_cons,
      Int.add_assoc]
    intro k
    simpa [Int.add_assoc] using h (k + 1)

end Decimal

open Decimal

namespace FundingPlan

/-- A payment is made out to a position. -/
def For (p : Position) (payment : FundingPayment) : Prop :=
  payment.position = p.id ∧ payment.owner = p.owner ∧ payment.side = p.side

/-- A payment charges a position with what it owes. -/
structure Charges (rate : Bps) (periods : UInt64) (p : Position) (payment : FundingPayment) :
    Prop where
  madeOut : For p payment
  owed : ∃ owed, fundingOwed p.size rate periods = .ok owed ∧ payment.amount = -owed

theorem collect_eq_ok {rate : Bps} {periods : UInt64} {t next : FundingTally} {p : Position}
    (h : collect rate periods t p = .ok next) :
    ∃ payment, Charges rate periods p payment ∧ next.payments = t.payments ++ [payment] ∧
      rounded? (t.total.units + -payment.amount.units) = some next.total.units := by
  unfold collect at h
  simp only [bind_eq_ok, pure_eq_ok] at h
  obtain ⟨owed, howed, total, htotal, rfl⟩ := h
  refine ⟨⟨p.id, p.owner, p.side, -owed⟩, ⟨⟨rfl, rfl, rfl⟩, owed, howed, rfl⟩, rfl, ?_⟩
  rw [units_neg, Int.neg_neg]
  exact units_of_add htotal

theorem foldlM_collect_eq_ok {rate : Bps} {periods : UInt64} {payers : List Position}
    {t last : FundingTally} (h : payers.foldlM (collect rate periods) t = .ok last) :
    ∃ payments, List.Forall₂ (Charges rate periods) payers payments ∧
      last.payments = t.payments ++ payments ∧
      runningTotal t.total.units (payments.map fun p => -p.amount.units)
        = some last.total.units := by
  induction payers generalizing t with
  | nil =>
    rw [List.foldlM_nil, pure_eq_ok] at h
    subst h
    exact ⟨[], .nil, (List.append_nil _).symm, rfl⟩
  | cons p payers ih =>
    rw [List.foldlM_cons, bind_eq_ok] at h
    obtain ⟨next, hcollect, h⟩ := h
    obtain ⟨payment, hcharges, hpayments, htotal⟩ := collect_eq_ok hcollect
    obtain ⟨payments, hpayers, hlast, hrun⟩ := ih h
    refine ⟨payment :: payments, .cons hcharges hpayers, ?_, ?_⟩
    · rw [hlast, hpayments, List.append_assoc, List.singleton_append]
    · rw [List.map_cons, runningTotal, htotal]
      exact hrun

/-- The shares before the last add up to what is paid out, and the last is the rest. -/
theorem distribute_eq_ok {pot openInterest paidOut : Decimal} {receivers : List Position}
    {payments : List FundingPayment}
    (h : distribute pot openInterest paidOut receivers = .ok payments) :
    List.Forall₂ For receivers payments ∧
      (payments = [] ∨ ∃ shares last total,
        payments = shares ++ [last] ∧
        runningTotal paidOut.units (shares.map fun p => p.amount.units) = some total ∧
        rounded? (pot.units - total) = some last.amount.units) := by
  induction receivers generalizing paidOut payments with
  | nil =>
    cases h
    exact ⟨.nil, .inl rfl⟩
  | cons p rest ih =>
    unfold distribute at h
    cases rest with
    | nil =>
      simp only [List.isEmpty_nil, if_true, distribute, bind_eq_ok, pure_eq_ok] at h
      obtain ⟨share, hshare, _, -, _, hnil, rfl⟩ := h
      cases hnil
      refine ⟨.cons ⟨rfl, rfl, rfl⟩ .nil, .inr ⟨[], _, _, rfl, rfl, ?_⟩⟩
      exact units_of_sub hshare
    | cons p' rest =>
      simp only [List.isEmpty_cons, Bool.false_eq_true, if_false, bind_eq_ok, pure_eq_ok] at h
      obtain ⟨weighted, -, share, -, paid, hpaid, others, hothers, rfl⟩ := h
      obtain ⟨hfors, hsum⟩ := ih hothers
      refine ⟨.cons ⟨rfl, rfl, rfl⟩ hfors, .inr ?_⟩
      rcases hsum with rfl | ⟨shares, last, total, rfl, hrun, hrest⟩
      · cases hfors
      · refine ⟨⟨p.id, p.owner, p.side, share⟩ :: shares, last, total, rfl, ?_, hrest⟩
        rw [List.map_cons, runningTotal, units_of_add hpaid]
        exact hrun

/-- The positions of a market on one side, by ascending number. -/
def onSide (l : Ledger) (market : MarketId) (side : Side) : List Position :=
  (l.positionsIn market).filter (·.side = side)

/-- A plan that is not for nobody collects from one side and distributes to the other. -/
theorem make_splits {l : Ledger} {market : MarketId} {rate : Bps} {periods : UInt64}
    {plan : FundingPlan} (h : make l market rate periods = .ok plan) :
    plan = nothing ∨ ∃ paid received, plan.payments = paid ++ received ∧
      ((l.openInterest market).onSide (payingSide rate).opposite).isZero = false ∧
      collectAll rate periods (onSide l market (payingSide rate)) = .ok ⟨paid, plan.totalPaid⟩ ∧
      distribute plan.totalPaid ((l.openInterest market).onSide (payingSide rate).opposite) .zero
        (onSide l market (payingSide rate).opposite) = .ok received := by
  unfold make at h
  split at h
  · rw [pure_eq_ok] at h
    exact .inl h.symm
  · dsimp only at h
    split at h
    · rw [pure_eq_ok] at h
      exact .inl h.symm
    · rename_i hreceiving
      simp only [bind_eq_ok, pure_eq_ok] at h
      obtain ⟨⟨paid, total⟩, hcollected, received, hreceived, rfl⟩ := h
      exact .inr ⟨paid, received, rfl, Bool.not_eq_true _ ▸ hreceiving, hcollected, hreceived⟩

/-- **What a plan is made of.** -/
theorem make_eq_ok {l : Ledger} {market : MarketId} {rate : Bps} {periods : UInt64}
    {plan : FundingPlan} (h : make l market rate periods = .ok plan) :
    plan = nothing ∨ ∃ paid received,
      plan.payments = paid ++ received ∧
      List.Forall₂ (Charges rate periods) (onSide l market (payingSide rate)) paid ∧
      List.Forall₂ For (onSide l market (payingSide rate).opposite) received ∧
      runningTotal 0 (paid.map fun p => -p.amount.units) = some plan.totalPaid.units ∧
      (received = [] ∨ ∃ shares last total,
        received = shares ++ [last] ∧
        runningTotal 0 (shares.map fun p => p.amount.units) = some total ∧
        rounded? (plan.totalPaid.units - total) = some last.amount.units) := by
  rcases make_splits h with hnothing | ⟨paid, received, hplan, -, hcollected, hreceived⟩
  · exact .inl hnothing
  · obtain ⟨payments, hpayers, hpaid, hpot⟩ := foldlM_collect_eq_ok hcollected
    obtain ⟨hreceivers, hrest⟩ := distribute_eq_ok hreceived
    obtain rfl : paid = payments := hpaid
    exact .inr ⟨paid, received, hplan, hpayers, hreceivers, hpot, hrest⟩

/-- Every payment is made out to an open position of the market. -/
theorem exists_of_mem_payments {l : Ledger} {market : MarketId} {rate : Bps} {periods : UInt64}
    {plan : FundingPlan} (h : make l market rate periods = .ok plan) {payment : FundingPayment}
    (hmem : payment ∈ plan.payments) : ∃ p ∈ l.positionsIn market, For p payment := by
  rcases make_eq_ok h with rfl | ⟨paid, received, hplan, hpaid, hreceived, -⟩
  · cases hmem
  · rw [hplan, List.mem_append] at hmem
    rcases hmem with hmem | hmem
    · obtain ⟨p, hp, hcharges⟩ := exists_of_forall₂ hpaid hmem
      exact ⟨p, (List.mem_filter.1 hp).1, hcharges.madeOut⟩
    · obtain ⟨p, hp, hfor⟩ := exists_of_forall₂ hreceived hmem
      exact ⟨p, (List.mem_filter.1 hp).1, hfor⟩

end FundingPlan

end Clearing

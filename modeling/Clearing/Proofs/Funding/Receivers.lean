import Clearing.Proofs.Decimal.Signs
import Clearing.Proofs.Decimal.Value
import Clearing.Proofs.Funding.Conservation

/-!
Who is charged in a settlement, and who is paid.

Every payer is charged and every receiver but the last is paid, whatever is rounded on the way
(`Signs`).  The last receiver gets what the shares before left of the pot, and they may leave less
than nothing: each of them is rounded to the nearest decimal, and open interest, by which the pot
is divided, may have drifted below the sizes.  So the last receiver is charged just where the
others were given more than the pot together.  How far that can be is the sum of the roundings
(`HandsOut.near`), as long as open interest covers the sizes.
-/

namespace Clearing

open Decimal

namespace FundingPlan

/-- Receivers of these sizes are handed out shares of a pot, from one running total to another:
each share is a rounded quotient of a rounded product, and each total is rounded.  The slack is
what these roundings may add up to. -/
inductive HandsOut (pot openInterest : Decimal) :
    Decimal → List Decimal → Decimal → ℚ → Prop
  | done {paidOut : Decimal} : HandsOut pot openInterest paidOut [] paidOut 0
  | share {paidOut size weighted share next total : Decimal} {sizes : List Decimal} {slack : ℚ}
      (hweighted : pot.mul size "funding share" = .ok weighted)
      (hshare : weighted.div openInterest "funding share" = .ok share)
      (hnext : paidOut.add share "funding share" = .ok next)
      (hrest : HandsOut pot openInterest next sizes total slack) :
      HandsOut pot openInterest paidOut (size :: sizes) total
        (tolerance (pot.value * size.value) / openInterest.value +
          tolerance (weighted.value / openInterest.value) +
          tolerance (paidOut.value + share.value) + slack)

variable {pot openInterest paidOut total : Decimal} {receivers : List Position}
  {payments : List FundingPayment} {sizes : List Decimal} {slack : ℚ}

/-- **What is handed out is the exact shares, up to the slack.** -/
theorem HandsOut.near (h : HandsOut pot openInterest paidOut sizes total slack)
    (hopen : zero < openInterest) :
    |total.value - (paidOut.value + pot.value * (sizes.map value).sum / openInterest.value)|
      ≤ slack := by
  induction h with
  | done => simp
  | @share paidOut size weighted share next total sizes slack hweighted hshare hnext hrest ih =>
    have hpos := value_pos.2 hopen
    -- Each of the three roundings is off by its tolerance, the first one before it is divided.
    have hproduct := (isRounded_mul hweighted).near
    have hquotient := (isRounded_div hshare hopen).near
    have hsum := (isRounded_add hnext).near
    have hdivided : |weighted.value / openInterest.value
        - pot.value * size.value / openInterest.value|
          ≤ tolerance (pot.value * size.value) / openInterest.value := by
      rw [← sub_div, abs_div, abs_of_pos hpos]
      exact div_le_div_of_nonneg_right hproduct hpos.le
    rw [List.map_cons, List.sum_cons, mul_add, add_div]
    rw [abs_le] at *
    constructor <;> linarith

/-- Receivers but the last get their shares, and the last gets the rest. -/
theorem distribute_handsOut (h : distribute pot openInterest paidOut receivers = .ok payments) :
    payments = [] ∨ ∃ init last total slack, payments = init ++ [last] ∧
      HandsOut pot openInterest paidOut (receivers.map (·.size)).dropLast total slack ∧
      pot.sub total "funding share" = .ok last.amount ∧
      ∀ payment ∈ init, ∃ p ∈ receivers, ∃ weighted,
        pot.mul p.size "funding share" = .ok weighted ∧
        weighted.div openInterest "funding share" = .ok payment.amount := by
  induction receivers generalizing paidOut payments with
  | nil =>
    cases h
    exact .inl rfl
  | cons p rest ih =>
    unfold distribute at h
    cases rest with
    | nil =>
      simp only [List.isEmpty_nil, if_true, distribute, bind_eq_ok, pure_eq_ok] at h
      obtain ⟨share, hshare, _, -, _, hnil, rfl⟩ := h
      cases hnil
      exact .inr ⟨[], _, _, _, rfl, .done, hshare, fun _ hmem => absurd hmem List.not_mem_nil⟩
    | cons p' rest =>
      simp only [List.isEmpty_cons, Bool.false_eq_true, if_false, bind_eq_ok, pure_eq_ok] at h
      obtain ⟨weighted, hweighted, share, hshare, next, hnext, others, hothers, rfl⟩ := h
      rcases ih hothers with rfl | ⟨init, last, total, slack, rfl, hhands, hlast, hinit⟩
      · cases (distribute_eq_ok hothers).1
      · have hall := HandsOut.share hweighted hshare hnext hhands
        refine .inr ⟨⟨p.id, p.owner, p.side, share⟩ :: init, last, total, _, rfl, hall, hlast, ?_⟩
        intro payment hpayment
        rcases List.mem_cons.1 hpayment with rfl | hmem
        · exact ⟨p, List.mem_cons_self .., weighted, hweighted, hshare⟩
        · obtain ⟨q, hq, hgiven⟩ := hinit payment hmem
          exact ⟨q, List.mem_cons_of_mem _ hq, hgiven⟩

/-! ### Signs -/

/-- Collecting what is not below zero fills a pot that is not. -/
theorem runningTotal_nonneg {total last : Int} {ns : List Int} (htotal : 0 ≤ total)
    (hns : ∀ n ∈ ns, 0 ≤ n) (h : runningTotal total ns = some last) : 0 ≤ last := by
  induction ns generalizing total with
  | nil =>
    rw [runningTotal, Option.some.injEq] at h
    exact h ▸ htotal
  | cons n ns ih =>
    rw [runningTotal, Option.bind_eq_some_iff] at h
    obtain ⟨next, hnext, h⟩ := h
    have hn := hns n (List.mem_cons_self ..)
    exact ih (rounded?_nonneg hnext (by omega)) (fun m hm => hns m (List.mem_cons_of_mem _ hm)) h

/-- Who owes for what it holds is not paid, and fills the pot. -/
theorem collectAll_signs {rate : Bps} {periods : UInt64} {payers : List Position} {t : FundingTally}
    (h : collectAll rate periods payers = .ok t) (hsized : ∀ p ∈ payers, zero < p.size) :
    (∀ payment ∈ t.payments, payment.amount ≤ zero) ∧ zero ≤ t.total := by
  obtain ⟨paid, hpayers, hpaid, hpot⟩ := foldlM_collect_eq_ok h
  obtain rfl : t.payments = paid := hpaid
  have hcharged : ∀ payment ∈ t.payments, payment.amount.units ≤ 0 := by
    intro payment hpayment
    obtain ⟨p, hp, hcharges⟩ := exists_of_forall₂ hpayers hpayment
    obtain ⟨owed, howed, hamount⟩ := hcharges.owed
    have := fundingOwed_nonneg howed (hsized p hp)
    rw [hamount, units_neg]
    omega
  constructor
  · intro payment hpayment
    rw [le_iff_units, units_zero]
    exact hcharged payment hpayment
  · rw [le_iff_units, units_zero]
    refine runningTotal_nonneg (Int.le_refl 0) (fun n hn => ?_) hpot
    obtain ⟨payment, hpayment, rfl⟩ := List.mem_map.1 hn
    have := hcharged payment hpayment
    omega

/-- What is left of a pot is below zero just where more than the pot was handed out. -/
theorem zero_le_rest_iff {rest : Decimal} {q : String} (h : pot.sub total q = .ok rest) :
    zero ≤ rest ↔ total ≤ pot := by
  have hround := units_of_sub h
  rw [le_iff_units, le_iff_units, units_zero]
  constructor
  · intro hrest
    by_contra hmore
    have hneg := rounded?_neg (pot.units - total.units)
    rw [hround, Option.map_some] at hneg
    have hnonneg := rounded?_nonneg hneg (by omega)
    exact rounded?_ne_zero hround (by omega) (by omega)
  · intro hle
    exact rounded?_nonneg hround (by omega)

/-- All but the last of those who share a pot are paid, and the last is paid just where the others
were handed out no more than the pot. -/
theorem distribute_signs (h : distribute pot openInterest zero receivers = .ok payments)
    (hpot : zero ≤ pot) (hopen : zero < openInterest) (hsized : ∀ p ∈ receivers, zero < p.size) :
    (∀ payment ∈ payments.dropLast, zero ≤ payment.amount) ∧ ∃ paidOut slack,
      HandsOut pot openInterest zero (receivers.map (·.size)).dropLast paidOut slack ∧
      ((∀ payment ∈ payments, zero ≤ payment.amount) ↔ paidOut ≤ pot) := by
  rcases distribute_handsOut h with rfl | ⟨init, last, total, slack, rfl, hhands, hlast, hinit⟩
  · have hnobody : receivers = [] := List.forall₂_nil_right_iff.1 (distribute_eq_ok h).1
    rw [hnobody]
    exact ⟨nofun, zero, 0, .done, iff_of_true nofun hpot⟩
  · have hearlier : ∀ payment ∈ init, zero ≤ payment.amount := by
      intro payment hpayment
      obtain ⟨p, hp, weighted, hweighted, hshare⟩ := hinit payment hpayment
      have hsize := zero_lt_iff.1 (hsized p hp)
      rw [le_iff_units, units_zero] at hpot ⊢
      exact units_nonneg_of_div hshare (units_nonneg_of_mul hweighted hpot hsize.le) hopen
    rw [List.dropLast_concat]
    refine ⟨hearlier, total, slack, hhands, ?_⟩
    rw [← zero_le_rest_iff hlast]
    constructor
    · intro hall
      exact hall last (List.mem_append_right _ (List.mem_singleton_self last))
    · intro hrest payment hpayment
      rcases List.mem_append.1 hpayment with hmem | hmem
      · exact hearlier payment hmem
      · rwa [List.mem_singleton.1 hmem]

/-- Open interest that covers the sizes leaves the last receiver its exact share, up to the
slack. -/
theorem HandsOut.le_pot (h : HandsOut pot openInterest zero sizes.dropLast total slack)
    (hpot : zero ≤ pot) (hopen : zero < openInterest)
    (hcovers : (sizes.map value).sum ≤ openInterest.value)
    (hslack : ∀ last ∈ sizes.getLast?, slack ≤ pot.value * last.value / openInterest.value) :
    total ≤ pot := by
  have hnonneg : 0 ≤ pot.value := value_zero ▸ value_le.2 hpot
  have hpos := value_pos.2 hopen
  rcases List.eq_nil_or_concat sizes with rfl | ⟨init, last, rfl⟩
  · cases h
    exact hpot
  · simp only [List.concat_eq_append, List.dropLast_concat, List.map_append, List.map_singleton,
      List.sum_append, List.sum_singleton, List.getLast?_concat, Option.mem_some,
      forall_eq'] at h hcovers hslack
    have hnear := (abs_le.1 (h.near hopen)).2
    -- Exact shares of everybody come to no more than the pot.
    have hwhole : pot.value * (init.map value).sum / openInterest.value
        + pot.value * last.value / openInterest.value ≤ pot.value := by
      rw [← add_div, ← mul_add, div_le_iff₀ hpos]
      exact mul_le_mul_of_nonneg_left hcovers hnonneg
    rw [value_zero] at hnear
    rw [← value_le]
    linarith

/-- Who is charged and who is paid by a plan. -/
structure Signs (l : Ledger) (market : MarketId) (rate : Bps) (plan : FundingPlan) : Prop where
  payers : ∀ payment ∈ plan.payments, payment.side = payingSide rate → payment.amount ≤ zero
  /-- All receivers but the last. -/
  earlier : ∀ payment ∈ (plan.payments.filter (·.side = (payingSide rate).opposite)).dropLast,
    zero ≤ payment.amount
  /-- All receivers are paid just where those before the last were handed out no more than the pot,
  as they are if open interest covers the sizes and the exact share of the last one covers the
  slack. -/
  receivers : plan.payments ≠ [] → ∃ openInterest sizes paidOut slack,
    openInterest = (l.openInterest market).onSide (payingSide rate).opposite ∧
    sizes = (onSide l market (payingSide rate).opposite).map (·.size) ∧
    HandsOut plan.totalPaid openInterest zero sizes.dropLast paidOut slack ∧
    ((∀ payment ∈ plan.payments, payment.side = (payingSide rate).opposite →
      zero ≤ payment.amount) ↔ paidOut ≤ plan.totalPaid) ∧
    ((sizes.map value).sum ≤ openInterest.value →
      (∀ last ∈ sizes.getLast?, slack ≤ plan.totalPaid.value * last.value / openInterest.value) →
      paidOut ≤ plan.totalPaid)

/-- **Who is charged and who is paid.**  Whatever was done to the ledger before, a plan charges
payers and pays receivers, with the one exception of a last receiver for whom the shares before did
not leave anything. -/
theorem make_signs {l : Ledger} {market : MarketId} {rate : Bps} {periods : UInt64}
    {plan : FundingPlan} {first : Nat} {ops : List Ledger.Operation}
    {replies : List (Except Ledger.Refusal Ledger.Reply)}
    (hrun : (Ledger.startingAt first).run ops = .ok (replies, l))
    (h : make l market rate periods = .ok plan) : plan.Signs l market rate := by
  have hsized : ∀ side, ∀ p ∈ onSide l market side, zero < p.size := by
    intro side p hp
    obtain ⟨id, -, hheld⟩ := List.mem_filterMap.1 (List.mem_filter.1 hp).1
    exact ((Ledger.Sound.startingAt first).run hrun).sized id p hheld
  rcases make_splits h with rfl | ⟨paid, received, hplan, hsome, hcollected, hdistributed⟩
  · exact ⟨nofun, nofun, fun hnone => absurd rfl hnone⟩
  · obtain ⟨hcharged, hfilled⟩ := collectAll_signs hcollected (hsized _)
    have hopen : zero < (l.openInterest market).onSide (payingSide rate).opposite := by
      have hnonneg := Ledger.openInterest_nonneg hrun market (payingSide rate).opposite
      have hne := mt units_eq_zero_iff.1 (Bool.not_eq_true _ ▸ hsome)
      rw [zero_lt_iff]
      omega
    obtain ⟨hearlier, paidOut, slack, hhands, hiff⟩ :=
      distribute_signs hdistributed hfilled hopen (hsized _)
    -- Each of the two lists is what the plan has on its side.
    obtain ⟨payments, hpayers, hpaid, -⟩ := foldlM_collect_eq_ok hcollected
    obtain rfl : paid = payments := hpaid
    obtain ⟨hmine, hothers⟩ := FundingSettlement.filter_sides
      (fun p hp => side_of_mem (hpayers.imp fun _ _ h => h.madeOut) hp)
      (fun p hp => side_of_mem (distribute_eq_ok hdistributed).1 hp)
    rw [← hplan] at hmine hothers
    have hmember : ∀ {side ps}, plan.payments.filter (·.side = side) = ps → ∀ payment,
        payment ∈ ps ↔ payment ∈ plan.payments ∧ payment.side = side := by
      rintro side _ rfl payment
      rw [List.mem_filter, decide_eq_true_eq]
    refine ⟨fun payment hpayment hside => ?_, ?_, fun _ => ⟨_, _, paidOut, slack, rfl, rfl, hhands,
      ?_, fun hcovers hslack => hhands.le_pot hfilled hopen hcovers hslack⟩⟩
    · exact hcharged payment ((hmember hmine payment).2 ⟨hpayment, hside⟩)
    · rwa [hothers]
    · rw [← hiff]
      refine forall_congr' fun payment => ?_
      rw [← and_imp, hmember hothers payment]

/-- Shares of a quarter, a quarter and a half. -/
theorem make_signs_quarters :
    ∃ replies l plan,
      (Ledger.startingAt 1).run (FundingBook.sampleRun 100 100 200) = .ok (replies, l) ∧
      make l ⟨1⟩ ⟨150⟩ 1 = .ok plan ∧ plan.payments.length = 4 ∧ plan.Signs l ⟨1⟩ ⟨150⟩ := by
  obtain ⟨⟨replies, l⟩, hrun, htest⟩ := exists_of_succeedsWith
    (fun r => succeedsWith (fun plan => plan.payments.length = 4) (make r.2 ⟨1⟩ ⟨150⟩ 1))
    (x := (Ledger.startingAt 1).run (FundingBook.sampleRun 100 100 200)) (by decide +kernel)
  obtain ⟨plan, h, hseen⟩ := exists_of_succeedsWith _ htest
  exact ⟨replies, l, plan, hrun, h, of_decide_eq_true hseen, make_signs hrun h⟩

/-- One long pays three shorts of 100 and one of the least size there is. -/
def sampleDust : List Ledger.Operation :=
  [(.long, .ofUInt32 410), (.short, .ofUInt32 100), (.short, .ofUInt32 100),
    (.short, .ofUInt32 100),
    (.short, { one with scale := maxScale, scale_le := Nat.le_refl _ })].map fun (side, size) =>
      .openPosition (Ledger.sampleOrder ⟨1⟩ side size) Ledger.sampleSchedule .epoch

/-- Each of the three gets a third of 1.886, rounded up.  Together they get more than the pot, and
the least of the receivers is charged the difference. -/
theorem make_charges_receiver :
    ∃ replies l plan,
      (Ledger.startingAt 1).run sampleDust = .ok (replies, l) ∧
      fundingRate (l.openInterest ⟨1⟩) ⟨300⟩ = .ok ⟨46⟩ ∧
      make l ⟨1⟩ ⟨46⟩ 1 = .ok plan ∧
      ∃ payment ∈ plan.payments, payment.side = (payingSide ⟨46⟩).opposite ∧
        payment.amount < zero := by
  obtain ⟨⟨replies, l⟩, hrun, htest⟩ := exists_of_succeedsWith
    (fun r : List (Except Ledger.Refusal Ledger.Reply) × Ledger =>
      decide (fundingRate (r.2.openInterest ⟨1⟩) ⟨300⟩ = .ok ⟨46⟩) &&
      succeedsWith (fun plan : FundingPlan => plan.payments.any fun payment =>
          payment.side = (payingSide ⟨46⟩).opposite ∧ payment.amount < zero)
        (make r.2 ⟨1⟩ ⟨46⟩ 1))
    (x := (Ledger.startingAt 1).run sampleDust) (by decide +kernel)
  obtain ⟨hrate, htest⟩ := Bool.and_eq_true_iff.1 htest
  obtain ⟨plan, h, hseen⟩ := exists_of_succeedsWith _ htest
  obtain ⟨payment, hmem, hcharged⟩ := List.any_eq_true.1 hseen
  exact ⟨replies, l, plan, hrun, of_decide_eq_true hrate, h, payment, hmem,
    of_decide_eq_true hcharged⟩

end FundingPlan

end Clearing

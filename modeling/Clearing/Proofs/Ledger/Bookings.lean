import Clearing.Proofs.Ledger.Holdings

/-!
A batch of payments, and the payments one after the other.

A batch is worked out from the ledger before it, so every amount is added to what its position had
accumulated then.  Paid one after the other, an amount is added to what the one before it left.
Either way totals are written, and of the totals for one position the last stays
(`get?_bookings`).  So a batch comes to the same as its payments one after the other where that
last total does (`LastCounts`).
-/

namespace Clearing

namespace Ledger

/-- Books payments one after the other, each as a batch of its own. -/
def applyEach (l : Ledger) (payments : List (PositionId × Amount)) (index : Decimal)
    (now : Instant) : Except LedgerError Ledger :=
  payments.foldlM (fun l payment => l.applyFunding [payment] index now) l

/-- The funding that an open position has accumulated. -/
def funding? (l : Ledger) (id : PositionId) : Option Amount :=
  (l.position? id).map (·.accumulatedFunding)

/-- The amounts listed for a position, in their order. -/
def amountsFor (payments : List (PositionId × Amount)) (id : PositionId) : List Amount :=
  (payments.filter (·.1 = id)).map (·.2)

/-- Adds amounts one after the other, each sum rounded, to what has been accumulated. -/
def accumulate (start : Amount) (amounts : List Amount) : Except ArithmeticError Amount :=
  amounts.foldlM (fun total amount => total.add amount "accumulated funding") start

/-- Adds the last of some amounts to what has been accumulated, as if it were the only one. -/
def addLast (start : Amount) (amounts : List Amount) : Except ArithmeticError Amount :=
  match amounts.getLast? with
  | none => .ok start
  | some amount => start.add amount "accumulated funding"

/-- Each amount can be added to what was accumulated before them all, and adding the last of them
comes to the same as adding them all. -/
structure LastCounts (start : Amount) (amounts : List Amount) : Prop where
  payable : ∀ amount ∈ amounts, ∃ total, start.add amount "accumulated funding" = .ok total
  last : addLast start amounts = accumulate start amounts

/-- An entry with its accumulated funding written anew. -/
def Entry.booked (e : Entry) (index : Decimal) (now : Instant) (total : Amount) : Entry :=
  { e with position := { e.position with
      accumulatedFunding := total, fundingIndex := index, updatedAt := now } }

variable {l next : Ledger} {payments totals : List (PositionId × Amount)} {index : Decimal}
  {now : Instant} {id : PositionId}

theorem amountsFor_cons (payment : PositionId × Amount) :
    amountsFor (payment :: payments) id =
      if payment.1 = id then payment.2 :: amountsFor payments id else amountsFor payments id := by
  unfold amountsFor
  by_cases hid : payment.1 = id
  · rw [if_pos hid, List.filter_cons_of_pos (by simpa using hid), List.map_cons]
  · rw [if_neg hid, List.filter_cons_of_neg (by simpa using hid)]

theorem mem_amountsFor {amount : Amount} :
    amount ∈ amountsFor payments id ↔ (id, amount) ∈ payments := by
  unfold amountsFor
  simp only [List.mem_map, List.mem_filter, decide_eq_true_eq]
  constructor
  · rintro ⟨payment, ⟨hmem, rfl⟩, rfl⟩
    exact hmem
  · intro hmem
    exact ⟨(id, amount), ⟨hmem, rfl⟩, rfl⟩

/-- Amounts are listed for the positions of a list. -/
theorem amountsFor_eq_nil_iff : amountsFor payments id = [] ↔ id ∉ payments.map (·.1) := by
  unfold amountsFor
  rw [List.map_eq_nil_iff, List.filter_eq_nil_iff, List.mem_map]
  simp only [decide_eq_true_eq, not_exists, not_and]

theorem accumulate_cons (start amount : Amount) (amounts : List Amount) :
    accumulate start (amount :: amounts) =
      start.add amount "accumulated funding" >>= fun total => accumulate total amounts :=
  List.foldlM_cons ..

/-! ### Writing totals -/

theorem get?_bookFunding (index : Decimal) (now : Instant) (l : Ledger)
    (total : PositionId × Amount) (id : PositionId) :
    (bookFunding index now l total).entries.get? id = (l.entries.get? id).map fun e =>
      if total.1 = id then e.booked index now total.2 else e := by
  unfold bookFunding
  by_cases hid : total.1 = id
  · subst hid
    simp only [if_true]
    cases hget : l.entries.get? total.1 with
    | none => exact hget
    | some e => exact Table.get?_insert_self ..
  · simp only [if_neg hid, Option.map_id']
    cases l.entries.get? total.1 with
    | none => rfl
    | some e => exact Table.get?_insert_of_ne _ _ (Ne.symm hid)

/-- **Of the totals written to a position, the last stays.** -/
theorem get?_bookings (index : Decimal) (now : Instant) (totals : List (PositionId × Amount))
    (l : Ledger) (id : PositionId) :
    (totals.foldl (bookFunding index now) l).entries.get? id = (l.entries.get? id).map fun e =>
      ((amountsFor totals id).getLast?.map (e.booked index now)).getD e := by
  induction totals generalizing l with
  | nil => exact (Option.map_id' ..).symm
  | cons total totals ih =>
    rw [List.foldl_cons, ih, get?_bookFunding, Option.map_map, amountsFor_cons]
    by_cases hid : total.1 = id
    · simp only [if_pos hid, List.getLast?_cons]
      congr 1
      funext e
      cases (amountsFor totals id).getLast? with
      | none => rfl
      | some last => rfl
    · simp only [if_neg hid]
      rfl

/-- Writing totals shows in nothing but the entries. -/
theorem bookings_eq (index : Decimal) (now : Instant) (totals : List (PositionId × Amount))
    (l : Ledger) :
    totals.foldl (bookFunding index now) l =
      { l with entries := (totals.foldl (bookFunding index now) l).entries } := by
  induction totals generalizing l with
  | nil => rfl
  | cons total totals ih =>
    have hfirst : bookFunding index now l total =
        { l with entries := (bookFunding index now l total).entries } := by
      unfold bookFunding
      cases l.entries.get? total.1 <;> rfl
    rw [List.foldl_cons, ih, hfirst]

theorem funding?_bookings (index : Decimal) (now : Instant) (totals : List (PositionId × Amount))
    (l : Ledger) (id : PositionId) :
    (totals.foldl (bookFunding index now) l).funding? id =
      (l.position? id).map fun p => (amountsFor totals id).getLast?.getD p.accumulatedFunding := by
  unfold funding? position?
  rw [get?_bookings, Option.map_map, Option.map_map, Option.map_map]
  congr 1
  funext e
  cases (amountsFor totals id).getLast? with
  | none => rfl
  | some total => rfl

/-- Totals for the same positions leave the same ledger, if the last of them are the same. -/
theorem bookings_congr {totals' : List (PositionId × Amount)}
    (hids : totals.map (·.1) = totals'.map (·.1))
    (hlast : ∀ id p, l.position? id = some p →
      (amountsFor totals id).getLast?.getD p.accumulatedFunding =
        (amountsFor totals' id).getLast?.getD p.accumulatedFunding) :
    totals.foldl (bookFunding index now) l = totals'.foldl (bookFunding index now) l := by
  have hentries : (totals.foldl (bookFunding index now) l).entries
      = (totals'.foldl (bookFunding index now) l).entries := by
    refine Table.ext_get? fun id => ?_
    rw [get?_bookings, get?_bookings]
    cases he : l.entries.get? id with
    | none => rfl
    | some e =>
      have hsame := hlast id e.position (by rw [position?, he, Option.map_some])
      have hnil : amountsFor totals id = [] ↔ amountsFor totals' id = [] := by
        rw [amountsFor_eq_nil_iff, amountsFor_eq_nil_iff, hids]
      cases hfirst : (amountsFor totals id).getLast? with
      | none =>
        rw [hnil.1 (List.getLast?_eq_none_iff.1 hfirst)]
        rfl
      | some total =>
        cases hsecond : (amountsFor totals' id).getLast? with
        | none =>
          rw [hnil.2 (List.getLast?_eq_none_iff.1 hsecond)] at hfirst
          cases hfirst
        | some total' =>
          rw [hfirst, hsecond] at hsame
          exact congrArg (fun total => some (e.booked index now total)) hsame
  rw [bookings_eq, hentries, ← bookings_eq]

/-! ### The totals of a batch -/

theorem accumulated_eq_ok {payment total : PositionId × Amount} :
    l.accumulated payment = .ok total ↔ ∃ p sum, l.position? payment.1 = some p ∧
      p.accumulatedFunding.add payment.2 "accumulated funding" = .ok sum ∧
      (payment.1, sum) = total := by
  unfold accumulated
  simp only [bind_eq_ok, find_eq_ok, mapError_eq_ok, pure_eq_ok, exists_and_left]

theorem applyFunding_eq_ok :
    l.applyFunding payments index now = .ok next ↔ ∃ totals,
      List.Forall₂ (fun payment total => l.accumulated payment = .ok total) payments totals ∧
      totals.foldl (bookFunding index now) l = next := by
  unfold applyFunding
  simp only [bind_eq_ok, mapM_eq_ok, pure_eq_ok]

section batch

variable (h : List.Forall₂ (fun payment total => l.accumulated payment = .ok total) payments totals)

include h

theorem ids_batch : totals.map (·.1) = payments.map (·.1) := by
  induction h with
  | nil => rfl
  | cons hfirst _ ih =>
    obtain ⟨-, -, -, -, rfl⟩ := accumulated_eq_ok.1 hfirst
    rw [List.map_cons, List.map_cons, ih]

/-- Each amount of a batch is added to what its position had accumulated before the batch. -/
theorem amountsFor_batch {p : Position} (hp : l.position? id = some p) :
    List.Forall₂ (fun amount total => p.accumulatedFunding.add amount "accumulated funding"
      = .ok total) (amountsFor payments id) (amountsFor totals id) := by
  induction h with
  | nil => exact .nil
  | @cons payment total payments totals hfirst _ ih =>
    obtain ⟨p', sum, hp', hsum, rfl⟩ := accumulated_eq_ok.1 hfirst
    rw [amountsFor_cons, amountsFor_cons]
    by_cases hid : payment.1 = id
    · rw [hid, hp, Option.some.injEq] at hp'
      rw [if_pos hid, if_pos hid]
      exact .cons (hp' ▸ hsum) ih
    · rw [if_neg hid, if_neg hid]
      exact ih

end batch

theorem getLast?_of_forall₂ {α β : Type} {R : α → β → Prop} {as : List α} {bs : List β}
    (h : List.Forall₂ R as bs) : Option.Rel R as.getLast? bs.getLast? := by
  induction h with
  | nil => exact .none
  | @cons a b as bs hfirst _ ih =>
    rw [List.getLast?_cons, List.getLast?_cons]
    generalize as.getLast? = last, bs.getLast? = last' at ih ⊢
    cases ih with
    | none => exact .some hfirst
    | some hlast => exact .some hlast

theorem addLast_of_forall₂ {start : Amount} {amounts sums : List Amount}
    (h : List.Forall₂ (fun amount sum => start.add amount "accumulated funding" = .ok sum)
      amounts sums) :
    addLast start amounts = .ok (sums.getLast?.getD start) := by
  have hends := getLast?_of_forall₂ h
  unfold addLast
  generalize amounts.getLast? = amount, sums.getLast? = sum at hends ⊢
  cases hends with
  | none => rfl
  | some hadd => exact hadd

/-! ### The totals of payments one after the other -/

theorem applyEach_cons (payment : PositionId × Amount) :
    l.applyEach (payment :: payments) index now =
      l.applyFunding [payment] index now >>= fun mid => mid.applyEach payments index now :=
  List.foldlM_cons ..

theorem applyFunding_singleton {payment : PositionId × Amount} :
    l.applyFunding [payment] index now = (l.accumulated payment).map (bookFunding index now l) := by
  unfold applyFunding
  rw [List.mapM_cons, List.mapM_nil]
  cases l.accumulated payment <;> rfl

/-- Paid one after the other, a position accumulates all of its amounts. -/
theorem applyEach_totals (h : l.applyEach payments index now = .ok next) :
    ∃ totals, totals.map (·.1) = payments.map (·.1) ∧
      totals.foldl (bookFunding index now) l = next ∧
      (∀ id ∈ payments.map (·.1), ∃ p, l.position? id = some p) ∧
      ∀ id p, l.position? id = some p →
        accumulate p.accumulatedFunding (amountsFor payments id)
          = .ok ((amountsFor totals id).getLast?.getD p.accumulatedFunding) := by
  induction payments generalizing l with
  | nil =>
    cases h
    exact ⟨[], rfl, rfl, fun _ hid => absurd hid List.not_mem_nil, fun _ _ _ => rfl⟩
  | cons payment payments ih =>
    rw [applyEach_cons, bind_eq_ok] at h
    obtain ⟨mid, hmid, h⟩ := h
    rw [applyFunding_singleton, map_eq_ok] at hmid
    obtain ⟨total, htotal, rfl⟩ := hmid
    obtain ⟨p, sum, hp, hsum, rfl⟩ := accumulated_eq_ok.1 htotal
    obtain ⟨totals, hids, hnext, hheld, hlast⟩ := ih h
    have hmid := position?_bookFunding index now (payment.1, sum) hp
    refine ⟨(payment.1, sum) :: totals, ?_, hnext, ?_, ?_⟩
    · rw [List.map_cons, List.map_cons, hids]
    · intro id hid
      rw [List.map_cons, List.mem_cons] at hid
      by_cases hsame : id = payment.1
      · exact ⟨p, hsame ▸ hp⟩
      · obtain ⟨q, hq⟩ := hheld id (hid.resolve_left hsame)
        rw [hmid, if_neg hsame] at hq
        exact ⟨q, hq⟩
    · intro id q hq
      rw [amountsFor_cons, amountsFor_cons]
      by_cases hsame : payment.1 = id
      · subst hsame
        rw [hp, Option.some.injEq] at hq
        subst hq
        have hrest := hlast payment.1 _ (by rw [hmid, if_pos rfl])
        rw [if_pos rfl, if_pos rfl, accumulate_cons, hsum, List.getLast?_cons]
        exact hrest
      · rw [if_neg hsame, if_neg hsame]
        exact hlast id q (by rw [hmid, if_neg (Ne.symm hsame), hq])

/-! ### Batches -/

/-- **A batch comes to its payments one after the other just where the last payment to each position
comes to all of them.** Paid one after the other, every position accumulates all of its amounts. -/
theorem applyFunding_eq_each_iff (h : l.applyEach payments index now = .ok next) :
    (∀ id p, l.position? id = some p → ∃ total, next.funding? id = some total ∧
      accumulate p.accumulatedFunding (amountsFor payments id) = .ok total) ∧
    (l.applyFunding payments index now = .ok next ↔ ∀ id p, l.position? id = some p →
      LastCounts p.accumulatedFunding (amountsFor payments id)) := by
  obtain ⟨totals, hids, hnext, hheld, hall⟩ := applyEach_totals h
  have hfunding : ∀ id p, l.position? id = some p → next.funding? id =
      some ((amountsFor totals id).getLast?.getD p.accumulatedFunding) := by
    intro id p hp
    rw [← hnext, funding?_bookings, hp, Option.map_some]
  refine ⟨fun id p hp => ⟨_, hfunding id p hp, hall id p hp⟩, fun hbatch id p hp => ?_,
    fun hlast => ?_⟩
  · obtain ⟨booked, hbooked, hsame⟩ := applyFunding_eq_ok.1 hbatch
    have hlisted := amountsFor_batch hbooked hp
    have hshown := hfunding id p hp
    rw [← hsame, funding?_bookings, hp, Option.map_some, Option.some.injEq] at hshown
    refine ⟨fun amount hamount => ?_, ?_⟩
    · obtain ⟨total, -, hadd⟩ := exists_of_forall₂ hlisted.flip hamount
      exact ⟨total, hadd⟩
    · rw [addLast_of_forall₂ hlisted, hall id p hp, hshown]
  · have hpayable : ∀ payment ∈ payments, ∃ total, l.accumulated payment = .ok total := by
      intro payment hpayment
      obtain ⟨p, hp⟩ := hheld payment.1 (List.mem_map_of_mem hpayment)
      obtain ⟨sum, hsum⟩ := (hlast _ p hp).payable payment.2 (mem_amountsFor.2 hpayment)
      exact ⟨_, accumulated_eq_ok.2 ⟨p, sum, hp, hsum, rfl⟩⟩
    obtain ⟨booked, hbooked⟩ := exists_mapM hpayable
    rw [mapM_eq_ok] at hbooked
    refine applyFunding_eq_ok.2 ⟨booked, hbooked, hnext ▸ bookings_congr ?_ fun id p hp => ?_⟩
    · rw [ids_batch hbooked, hids]
    · have hends := addLast_of_forall₂ (amountsFor_batch hbooked hp)
      rw [(hlast id p hp).last, hall id p hp] at hends
      exact (Except.ok.inj hends).symm

/-- Two positions. -/
def sampleOpened : List Operation :=
  [.openPosition (sampleOrder ⟨1⟩ .long (.ofUInt32 10)) sampleSchedule .epoch,
    .openPosition (sampleOrder ⟨2⟩ .short (.ofUInt32 10)) sampleSchedule .epoch]

/-- A position may be listed twice, if all but its last payment come to nothing. -/
theorem applyFunding_eq_each_trailing :
    ∃ replies l next,
      (startingAt 1).run sampleOpened = .ok (replies, l) ∧
      l.applyEach [(⟨1⟩, .zero), (⟨2⟩, -.one), (⟨1⟩, .one)] .one .epoch = .ok next ∧
      l.applyFunding [(⟨1⟩, .zero), (⟨2⟩, -.one), (⟨1⟩, .one)] .one .epoch = .ok next ∧
      ∀ id p, l.position? id = some p →
        LastCounts p.accumulatedFunding
          (amountsFor [(⟨1⟩, .zero), (⟨2⟩, -.one), (⟨1⟩, .one)] id) := by
  obtain ⟨⟨replies, l⟩, hl, htest⟩ := exists_of_succeedsWith
    (fun r : List (Except Refusal Reply) × Ledger => succeedsWith
      (fun next => succeedsWith (fun batch => decide (batch = next))
        (r.2.applyFunding [(⟨1⟩, .zero), (⟨2⟩, -.one), (⟨1⟩, .one)] .one .epoch))
      (r.2.applyEach [(⟨1⟩, .zero), (⟨2⟩, -.one), (⟨1⟩, .one)] .one .epoch))
    (x := (startingAt 1).run sampleOpened) (by decide +kernel)
  obtain ⟨next, hnext, htest⟩ := exists_of_succeedsWith _ htest
  obtain ⟨batch, hbatch, hsame⟩ := exists_of_succeedsWith _ htest
  obtain rfl := of_decide_eq_true hsame
  exact ⟨replies, l, batch, hl, hnext, hbatch, (applyFunding_eq_each_iff hnext).2.1 hbatch⟩

/-- Of 5 and 7 listed for one position, a batch books 7.  And it refuses two amounts that leave 1
when they are paid one after the other, since there is no room for the second without the first. -/
theorem applyFunding_loses :
    ∃ replies l each batch full paid,
      (startingAt 1).run sampleOpened = .ok (replies, l) ∧
      l.applyEach [(⟨1⟩, .ofUInt32 5), (⟨1⟩, .ofUInt32 7)] .one .epoch = .ok each ∧
      each.funding? ⟨1⟩ = some (.ofUInt32 12) ∧
      l.applyFunding [(⟨1⟩, .ofUInt32 5), (⟨1⟩, .ofUInt32 7)] .one .epoch = .ok batch ∧
      batch.funding? ⟨1⟩ = some (.ofUInt32 7) ∧
      l.applyFunding [(⟨1⟩, .greatest)] .one .epoch = .ok full ∧
      full.applyEach [(⟨1⟩, -.greatest), (⟨1⟩, .one)] .one .epoch = .ok paid ∧
      paid.funding? ⟨1⟩ = some .one ∧
      full.applyFunding [(⟨1⟩, -.greatest), (⟨1⟩, .one)] .one .epoch
        = .error (.arithmetic (.overflow "accumulated funding")) := by
  obtain ⟨⟨replies, l⟩, hl, htest⟩ := exists_of_succeedsWith
    (fun r : List (Except Refusal Reply) × Ledger =>
      succeedsWith (fun each : Ledger => decide (each.funding? ⟨1⟩ = some (.ofUInt32 12)))
        (r.2.applyEach [(⟨1⟩, .ofUInt32 5), (⟨1⟩, .ofUInt32 7)] .one .epoch) &&
      succeedsWith (fun batch : Ledger => decide (batch.funding? ⟨1⟩ = some (.ofUInt32 7)))
        (r.2.applyFunding [(⟨1⟩, .ofUInt32 5), (⟨1⟩, .ofUInt32 7)] .one .epoch) &&
      succeedsWith (fun full : Ledger =>
        succeedsWith (fun paid : Ledger => decide (paid.funding? ⟨1⟩ = some .one))
          (full.applyEach [(⟨1⟩, -.greatest), (⟨1⟩, .one)] .one .epoch) &&
        failsWith (.arithmetic (.overflow "accumulated funding"))
          (full.applyFunding [(⟨1⟩, -.greatest), (⟨1⟩, .one)] .one .epoch))
        (r.2.applyFunding [(⟨1⟩, .greatest)] .one .epoch))
    (x := (startingAt 1).run sampleOpened) (by decide +kernel)
  simp only [Bool.and_eq_true] at htest
  obtain ⟨⟨heach, hbatch⟩, hfull⟩ := htest
  obtain ⟨each, heach, htwelve⟩ := exists_of_succeedsWith _ heach
  obtain ⟨batch, hbatch, hseven⟩ := exists_of_succeedsWith _ hbatch
  obtain ⟨full, hfull, htest⟩ := exists_of_succeedsWith _ hfull
  obtain ⟨hpaid, hrefused⟩ := Bool.and_eq_true_iff.1 htest
  obtain ⟨paid, hpaid, hone⟩ := exists_of_succeedsWith _ hpaid
  exact ⟨replies, l, each, batch, full, paid, hl, heach, of_decide_eq_true htwelve, hbatch,
    of_decide_eq_true hseven, hfull, hpaid, of_decide_eq_true hone, eq_error_of_failsWith hrefused⟩

end Ledger

end Clearing

import Clearing.Proofs.Deleverage.Walk
import Clearing.Proofs.Ledger.Indices

/-!
What happens in one market, seen from another.

Markets share a ledger: its entries, its numbers and its owners' portfolios.  All that a market
has to itself are the entries of its positions and its open interest, and `SameIn` says that two
ledgers agree on these.  A write of another market's entry cannot show there (`SameIn.touch`), and
every operation is a series of such writes, each to an entry that was of another market from the
beginning.  So an operation in one market leaves every other market as it is, also where the
positions are found through a list of payments or through a queue.
-/

namespace Clearing

namespace Ledger

/-- The two ledgers have the same entries in a market and the same open interest. -/
structure SameIn (market : MarketId) (l next : Ledger) : Prop where
  entries : ∀ id e, e.position.market = market →
    (next.entries.get? id = some e ↔ l.entries.get? id = some e)
  openInterest : next.openInterest market = l.openInterest market

/-- What is kept under a number is not of this market. -/
def AwayFrom (market : MarketId) (l : Ledger) (id : PositionId) : Prop :=
  ∀ e, l.entries.get? id = some e → e.position.market ≠ market

variable {market other : MarketId} {l mid next : Ledger}

theorem awayFrom_of_held {id : PositionId} {p : Position} (hp : l.position? id = some p)
    (hother : p.market ≠ market) : l.AwayFrom market id := by
  intro e he
  have hposition : e.position = p := by
    unfold position? at hp
    rw [he, Option.map_some, Option.some.injEq] at hp
    exact hp
  rw [hposition]
  exact hother

theorem awayFrom_of_none {id : PositionId} (hnone : l.entries.get? id = none) :
    l.AwayFrom market id := by
  intro e he
  rw [hnone] at he
  cases he

/-! ### Writes in another market -/

namespace SameIn

theorem refl (market : MarketId) (l : Ledger) : SameIn market l l :=
  ⟨fun _ _ _ => Iff.rfl, rfl⟩

theorem trans (h : SameIn market l mid) (h' : SameIn market mid next) : SameIn market l next :=
  ⟨fun id e he => (h'.entries id e he).trans (h.entries id e he),
    h'.openInterest.trans h.openInterest⟩

theorem awayFrom (h : SameIn market l mid) {id : PositionId} (haway : l.AwayFrom market id) :
    mid.AwayFrom market id := by
  intro e he hmarket
  exact haway e ((h.entries id e hmarket).1 he) hmarket

/-- A write under one number does not show in a market that had nothing there and gets nothing
there. -/
theorem touch (h : SameIn market l mid) {id : PositionId} (haway : l.AwayFrom market id)
    (hothers : ∀ k, k ≠ id → next.entries.get? k = mid.entries.get? k)
    (hwritten : next.AwayFrom market id)
    (hinterest : next.openInterest market = mid.openInterest market) : SameIn market l next := by
  refine ⟨fun k e hmarket => ?_, hinterest.trans h.openInterest⟩
  by_cases hk : k = id
  · subst hk
    constructor
    · intro he
      exact absurd hmarket (hwritten e he)
    · intro he
      exact absurd hmarket (haway e he)
  · rw [hothers k hk]
    exact h.entries k e hmarket

/-- Ledgers that agree on a market show the same positions in it. -/
theorem positionsIn (h : SameIn market l next) (hl : l.WellIndexed) (hnext : next.WellIndexed) :
    next.positionsIn market = l.positionsIn market := by
  rw [hnext.positionsIn_eq_filter, hl.positionsIn_eq_filter]
  refine WellIndexed.eq_of_ascending (hnext.positions_ascending.filter _)
    (hl.positions_ascending.filter _) fun p => ?_
  rw [List.mem_filter, List.mem_filter, decide_eq_true_eq, hnext.mem_positions, hl.mem_positions]
  refine and_congr_left fun hmarket => ?_
  unfold position?
  rw [Option.map_eq_some_iff, Option.map_eq_some_iff]
  constructor
  · rintro ⟨e, he, rfl⟩
    exact ⟨e, (h.entries _ e hmarket).1 he, rfl⟩
  · rintro ⟨e, he, rfl⟩
    exact ⟨e, (h.entries _ e hmarket).2 he, rfl⟩

end SameIn

/-! ### Steps in another market -/

theorem Opens.sameIn {p : Position} {now : Instant} {notice : Notice} (hindexed : l.WellIndexed)
    (h : Opens l p now notice next) (hother : p.market ≠ market) : SameIn market l next := by
  have hfresh : l.entries.get? p.id = none :=
    Option.map_eq_none_iff.1 (hindexed.position?_opened h)
  have hposition : next.position? p.id = some p := by rw [h.position?, if_pos rfl]
  obtain ⟨oi, -, hinterest⟩ := h.openInterest
  refine (SameIn.refl market l).touch (awayFrom_of_none hfresh) (fun k hk => ?_)
    (awayFrom_of_held hposition hother) ?_
  · rw [h.get?_entries, if_neg hk]
  · rw [hinterest, if_neg (Ne.symm hother)]

theorem Amends.sameIn {id : PositionId} {current p : Position} {mark : Price} {now : Instant}
    {notice : Notice} (hstored : l.Stored) (held : l.position? id = some current)
    (same : p.identity = current.identity) (h : Amends l current p mark now notice next)
    (hother : current.market ≠ market) : SameIn market l next := by
  have hid : p.id = id := (Position.id_eq_of_identity same).trans (hstored id current held)
  have haway : l.AwayFrom market p.id := by
    rw [hid]
    exact awayFrom_of_held held hother
  have hposition : next.position? p.id = some p := by rw [h.position?, if_pos rfl]
  rw [← Position.market_eq_of_identity same] at hother
  obtain ⟨-, oi, -, -, hinterest⟩ := h.openInterest
  refine (SameIn.refl market l).touch haway (fun k hk => ?_)
    (awayFrom_of_held hposition hother) ?_
  · rw [h.get?_entries, if_neg hk]
  · rw [hinterest, if_neg (Ne.symm hother)]

theorem Closes.sameIn {id : PositionId} {p : Position} {now : Instant} (hstored : l.Stored)
    (h : Closes l id p now next) (hother : p.market ≠ market) : SameIn market l next := by
  have hgone : next.entries.get? p.id = none := by rw [h.get?_entries, if_pos rfl]
  obtain ⟨oi, -, hinterest⟩ := h.openInterest
  refine (SameIn.refl market l).touch
    (awayFrom_of_held (hstored.position?_id h.held) hother) (fun k hk => ?_)
    (awayFrom_of_none hgone) ?_
  · rw [h.get?_entries, if_neg hk]
  · rw [hinterest, if_neg (Ne.symm hother)]

theorem forceReduce_sameIn {id : PositionId} {amount : Decimal} {price : Price}
    {schedule : MarginSchedule} {now : Instant} {posted : Posted Reduction} (hstored : l.Stored)
    (h : l.forceReduce id amount price schedule now = .ok posted)
    (haway : l.AwayFrom market id) : SameIn market l posted.ledger := by
  obtain ⟨current, hcurrent, hcases⟩ := forceReduce_eq_ok h
  obtain ⟨e, he, rfl⟩ := Option.map_eq_some_iff.1 hcurrent
  have hother : e.position.market ≠ market := haway e he
  rcases hcases with ⟨-, -, hcloses⟩ | ⟨-, -, p, notice, hsame, -, hamends⟩
  · exact hcloses.sameIn hstored hother
  · exact hamends.sameIn hstored hcurrent hsame hother

/-! ### Many writes in another market -/

theorem refreshMarket_sameIn {mark : Price} {now : Instant} {posted : Posted (List PositionId)}
    (hindexed : l.WellIndexed) (h : l.refreshMarket other mark now = .ok posted)
    (hother : other ≠ market) : SameIn market l posted.ledger := by
  obtain ⟨marked, portfolios, hmarked, -, hledger⟩ := refreshMarket_eq_ok h
  have haway : ∀ m ∈ marked, l.AwayFrom market m.entry.position.id ∧
      m.entry.position.market ≠ market := by
    intro m hm
    obtain ⟨p, hheld, hmarket, hmark⟩ := hindexed.exists_of_marked hmarked hm
    obtain ⟨-, hposition, -⟩ := markAt_eq_ok hmark
    have hne : p.market ≠ market := hmarket.trans_ne hother
    rw [hposition]
    exact ⟨awayFrom_of_held (p := p) hheld hne, hne⟩
  rw [hledger]
  have hstart : SameIn market l { l with portfolios := portfolios } := ⟨fun _ _ _ => Iff.rfl, rfl⟩
  refine List.foldlRecOn marked _ hstart fun mid hmid m hm => ?_
  refine hmid.touch (haway m hm).1 (fun k hk => ?_) ?_ rfl
  · rw [get?_entries_record, if_neg hk]
  · refine awayFrom_of_held (p := m.entry.position) ?_ (haway m hm).2
    rw [position?_record, if_pos rfl]

theorem bookFunding_sameIn (h : SameIn market l mid) (index : Decimal) (now : Instant)
    {total : PositionId × Amount} (haway : l.AwayFrom market total.1) :
    SameIn market l (bookFunding index now mid total) := by
  unfold bookFunding
  cases hget : mid.entries.get? total.1 with
  | none => exact h
  | some e =>
    refine h.touch haway (fun k hk => Table.get?_insert_of_ne _ _ hk) (fun e' he' => ?_) rfl
    have hold : e.position.market ≠ market := h.awayFrom haway e hget
    have hnew : _ = e' := Option.some.inj ((Table.get?_insert_self ..).symm.trans he')
    rw [← hnew]
    exact hold

theorem applyFunding_sameIn {payments : List (PositionId × Amount)} {index : Decimal}
    {now : Instant} (h : l.applyFunding payments index now = .ok next)
    (haway : ∀ payment ∈ payments, l.AwayFrom market payment.1) : SameIn market l next := by
  unfold applyFunding at h
  simp only [bind_eq_ok, mapM_eq_ok, pure_eq_ok] at h
  obtain ⟨totals, htotals, rfl⟩ := h
  refine List.foldlRecOn totals _ (SameIn.refl market l) fun mid hmid total htotal => ?_
  obtain ⟨payment, hpayment, haccumulated⟩ := exists_of_forall₂ htotals htotal
  unfold accumulated at haccumulated
  simp only [bind_eq_ok, pure_eq_ok] at haccumulated
  obtain ⟨-, -, -, -, rfl⟩ := haccumulated
  exact bookFunding_sameIn hmid index now (haway payment hpayment)

end Ledger

/-! ### Components that change positions -/

variable {market other : MarketId} {l next : Ledger}

theorem FundingBook.settle_sameIn {b book : FundingBook} {now : Instant} {s : FundingSettlement}
    (hindexed : l.WellIndexed) (h : b.settle other l now = .ok (s, book, next))
    (hother : other ≠ market) : Ledger.SameIn market l next := by
  rcases settle_eq_ok h with ⟨-, rfl⟩ | ⟨rate, periods, plan, index, hplan, hbooked, -⟩
  · exact .refl market next
  · refine Ledger.applyFunding_sameIn hbooked fun payment hpayment => ?_
    obtain ⟨made, hmade, rfl⟩ := List.mem_map.1 hpayment
    obtain ⟨p, hp, hfor⟩ := FundingPlan.exists_of_mem_payments hplan hmade
    rw [hindexed.positionsIn_eq_filter, List.mem_filter, hindexed.mem_positions,
      decide_eq_true_eq] at hp
    rw [hfor.1]
    exact Ledger.awayFrom_of_held hp.1 (hp.2.trans_ne hother)

/-- An execution reaches only those whom its lane names. -/
theorem DeleverageQueue.execute_sameIn {q left : DeleverageQueue} {schedule : MarginSchedule}
    {shortfall : Shortfall} {now : Instant} {coverage : Coverage} (hindexed : l.WellIndexed)
    (h : q.execute l schedule shortfall now = .ok (coverage, left, next))
    (haway : ∀ c ∈ q.candidates shortfall.lane, l.AwayFrom market c.position) :
    Ledger.SameIn market l next := by
  obtain ⟨terms, walk, -, -, hwalk, rfl, -⟩ := execute_eq_ok h
  suffices walk.ledger.WellIndexed ∧ Ledger.SameIn market l walk.ledger from this.2
  refine foldlM_invariant (P := fun w => w.ledger.WellIndexed ∧ Ledger.SameIn market l w.ledger)
    ?_ ⟨hindexed, .refl market l⟩ hwalk
  intro w pick hpick w' hw htake
  rcases take_eq_ok htake with rfl | ⟨p, amount, price, schedule, posted, -, hforced, hledger, -⟩
  · exact hw
  · have hpicked := haway pick.2 (mem_of_mem_picks hpick).1
    rw [hledger]
    exact ⟨hw.1.change (Ledger.forceReduce_change hforced),
      hw.2.trans (Ledger.forceReduce_sameIn hw.1.stored hforced (hw.2.awayFrom hpicked))⟩

end Clearing

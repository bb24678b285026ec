import Clearing.Proofs.Deleverage.Walk
import Clearing.Proofs.Ledger.Portfolios

/-!
What an operation makes of one position.

Three things kept with a position are worked out from the rest: its liquidation price, its gain,
and the flag that says whether it can be liquidated.  An operation assesses a position, which
works out all three, by the tier of its market and at a price; or it marks it, which works out
gain and flag at a price; or it leaves all three alone.  `assessment?` and `markOf?` read off an
operation and its reply which of these it did, and `answer_becomes` shows that it did just that.

An assessment also says on what terms the position stands: it is backed by the tier, or it asks
no more of its collateral than before.
-/

namespace Clearing

open Decimal

/-- What of a position no mark and no funding changes. -/
def Position.terms (p : Position) : Position.Identity × Decimal × Price × Amount × Decimal :=
  (p.identity, p.size, p.entryPrice, p.collateral, p.liquidationPrice)

theorem Position.Eases.trans {p mid current : Position} (h : p.Eases mid) (h' : mid.Eases current) :
    p.Eases current where
  size_le := by
    have hfirst := le_iff_units.1 h.size_le
    have hsecond := le_iff_units.1 h'.size_le
    rw [le_iff_units]
    omega
  entryPrice := h.entryPrice.trans h'.entryPrice
  collateral_le := by
    have hfirst := le_iff_units.1 h.collateral_le
    have hsecond := le_iff_units.1 h'.collateral_le
    rw [le_iff_units]
    omega

/-- At the price a position is entered at, it has gained nothing. -/
theorem Position.pnlAt_entryPrice (p : Position) :
    ∃ pnl, p.pnlAt p.entryPrice = .ok pnl ∧ pnl.units = 0 := by
  have hsub := sub?_units p.entryPrice p.entryPrice
  rw [Int.sub_self, ← units_zero, rounded?_units, Option.map_eq_some_iff] at hsub
  obtain ⟨move, hmove, hzero⟩ := hsub
  have hproduct : move.mul p.size "unrealized pnl" = .ok zero := by
    rw [mul, orOverflow_eq_ok, mul?, units_eq_zero_iff.1 hzero]
    rfl
  refine ⟨zero, ?_, rfl⟩
  have hdifference : p.entryPrice.sub p.entryPrice "unrealized pnl" = .ok move :=
    orOverflow_eq_ok.2 hmove
  unfold Position.pnlAt Clearing.unrealizedPnl
  cases p.side with
  | long => exact bind_eq_ok.2 ⟨move, hdifference, hproduct⟩
  | short => exact bind_eq_ok.2 ⟨move, hdifference, hproduct⟩

namespace Ledger

/-- Gain and flag are those of the position at a price. -/
structure Entry.MarkedAt (mark : Price) (e : Entry) : Prop where
  gained : ∃ pnl, e.position.pnlAt mark = .ok pnl ∧ pnl.units = e.position.unrealizedPnl.units
  flagged : e.liquidatable = e.position.isLiquidatableAt mark

theorem Opens.markedAt {l next : Ledger} {p : Position} {now : Instant} {notice : Notice}
    (h : Opens l p now notice next) :
    Entry.MarkedAt p.entryPrice ⟨p, p.isLiquidatableAt p.entryPrice⟩ := by
  obtain ⟨pnl, hpnl, hzero⟩ := p.pnlAt_entryPrice
  refine ⟨⟨pnl, hpnl, ?_⟩, rfl⟩
  rw [hzero, h.unmarked]
  rfl

theorem Amends.markedAt {l next : Ledger} {current p : Position} {mark : Price} {now : Instant}
    {notice : Notice} (h : Amends l current p mark now notice next) :
    Entry.MarkedAt mark ⟨p, p.isLiquidatableAt mark⟩ :=
  ⟨⟨_, h.marked, rfl⟩, rfl⟩

theorem markedAt_of_markAt {p : Position} {mark : Price} {now : Instant} {m : Marked}
    (h : markAt p mark now = .ok m) : m.entry.MarkedAt mark := by
  unfold markAt at h
  simp only [bind_eq_ok, pure_eq_ok] at h
  obtain ⟨pnl, hpnl, notice, -, rfl⟩ := h
  exact ⟨⟨pnl, hpnl, rfl⟩, rfl⟩

/-! ### What an operation does to a position -/

/-- The schedule and the price by which an operation assessed a position, if it did.  A
deleveraging assesses those that it reports. -/
def Operation.assessment? (op : Operation) (reply : Reply) (id : PositionId) :
    Option (MarginSchedule × Price) :=
  match op, reply with
  | .openPosition order schedule _, .opened opened =>
    if opened = id then some (schedule, order.entryPrice) else none
  | .modify target _ _ price schedule _, _ => if target = id then some (schedule, price) else none
  | .forceReduce target _ price schedule _, _ =>
    if target = id then some (schedule, price) else none
  | .deleverage _ schedule shortfall _, .covered coverage =>
    if id ∈ coverage.deleveraged.map (·.position) then some (schedule, shortfall.price) else none
  | _, _ => none

/-- The price at which an operation marked a position of a market, if it did. -/
def Operation.markOf? (op : Operation) (reply : Reply) (id : PositionId) (market : MarketId) :
    Option Price :=
  match op with
  | .refresh target mark _ => if target = id then some mark else none
  | .refreshMarket marked mark _ => if marked = market then some mark else none
  | _ => (op.assessment? reply id).map (·.2)

/-- An assessment marks as well. -/
theorem Operation.markOf?_of_assessment {op : Operation} {reply : Reply} {id : PositionId}
    {schedule : MarginSchedule} {price : Price}
    (h : op.assessment? reply id = some (schedule, price)) (market : MarketId) :
    op.markOf? reply id market = some price := by
  unfold Operation.markOf?
  split
  · cases h
  · cases h
  · rw [h, Option.map_some]

theorem Operation.assessment?_of_unmarked {op : Operation} {reply : Reply} {id : PositionId}
    {market : MarketId} (h : op.markOf? reply id market = none) :
    op.assessment? reply id = none := by
  cases hassess : op.assessment? reply id with
  | none => rfl
  | some assessed =>
    rw [markOf?_of_assessment hassess] at h
    cases h

/-- The terms on which a position stands after an assessment in `l`: it is new and backed, or it
was there and is backed or eased. -/
inductive Admits (l : Ledger) (tier : MarginTier) (p : Position) : Prop
  | opened (number : p.id = ⟨l.nextNumber⟩) (leverage_le : p.leverage ≤ tier.maxLeverage)
      (backed : p.BackedBy tier)
  | amended {current : Position} (held : l.position? p.id = some current)
      (same : p.identity = current.identity) (backed : p.BackedBy tier ∨ p.Eases current)

/-- An entry after an operation on `l`: assessed, marked or kept. -/
inductive Becomes (l : Ledger) (op : Operation) (reply : Reply) (e : Entry) : Prop
  | assessed {schedule : MarginSchedule} {price : Price} {tier : MarginTier}
      (assessment : op.assessment? reply e.position.id = some (schedule, price))
      (listed : schedule.tier? e.position.market = some tier)
      (priced : e.position.PricedBy tier) (marked : e.MarkedAt price)
      (admits : l.Admits tier e.position)
  | marked {mark : Price} {before : Entry}
      (assessment : op.assessment? reply e.position.id = none)
      (atPrice : op.markOf? reply e.position.id e.position.market = some mark)
      (held : l.entries.get? e.position.id = some before)
      (terms : e.position.terms = before.position.terms) (marked : e.MarkedAt mark)
  | kept {before : Entry}
      (unmarked : op.markOf? reply e.position.id e.position.market = none)
      (held : l.entries.get? e.position.id = some before)
      (terms : e.position.terms = before.position.terms)
      (gain : e.position.unrealizedPnl = before.position.unrealizedPnl)
      (flag : e.liquidatable = before.liquidatable)

variable {l next : Ledger} {op : Operation} {reply : Reply} {id : PositionId} {e : Entry}

/-- What is stored under another number than the one written was there before. -/
theorem Becomes.of_untouched (hmark : op.markOf? reply e.position.id e.position.market = none)
    (h : l.entries.get? e.position.id = some e) : l.Becomes op reply e :=
  .kept hmark h rfl rfl rfl

theorem position?_of_entry (h : l.entries.get? id = some e) : l.position? id = some e.position := by
  unfold position?
  rw [h, Option.map_some]

theorem exists_entry {p : Position} (h : l.position? id = some p) :
    ∃ e, l.entries.get? id = some e ∧ e.position = p :=
  Option.map_eq_some_iff.1 h

/-- An operation that writes one entry and does nothing to others leaves each as it says, if it
does so with the one. -/
theorem becomes_of_write {p : Position} {flag : Bool} (hstored : next.Stored)
    (hwrite : ∀ id, next.entries.get? id =
      if id = p.id then some ⟨p, flag⟩ else l.entries.get? id)
    (hself : l.Becomes op reply ⟨p, flag⟩)
    (hothers : ∀ other, other ≠ p.id → ∀ market, op.markOf? reply other market = none)
    (he : next.entries.get? id = some e) : l.Becomes op reply e := by
  have hid := hstored id _ (position?_of_entry he)
  rw [hwrite, ← hid] at he
  by_cases hnew : e.position.id = p.id
  · rw [if_pos hnew, Option.some.injEq] at he
    exact he ▸ hself
  · rw [if_neg hnew] at he
    exact .of_untouched (hothers _ hnew _) he

theorem openPosition_becomes {order : Order} {schedule : MarginSchedule} {now : Instant}
    {posted : Posted PositionId} (h : l.openPosition order schedule now = .ok posted)
    (hstored : posted.ledger.Stored) (he : posted.ledger.entries.get? id = some e) :
    l.Becomes (.openPosition order schedule now) (.opened posted.result) e := by
  obtain ⟨tier, price, notice, hactive, hleverage, hbacked, hpriced, hnumber, -, hopens⟩ :=
    openPosition_terms h
  refine becomes_of_write hstored hopens.get?_entries ?_ (fun other hother _ => ?_) he
  · have hassess : (Operation.openPosition order schedule now).assessment?
        (.opened posted.result) posted.result = some (schedule, order.entryPrice) := if_pos rfl
    exact .assessed hassess (Option.filter_eq_some_iff.1 hactive).1 hpriced hopens.markedAt
      (.opened hnumber hleverage hbacked)
  · have hassess : (Operation.openPosition order schedule now).assessment?
        (.opened posted.result) other = none := if_neg (Ne.symm hother)
    exact congrArg (Option.map Prod.snd) hassess

theorem modify_becomes {target : PositionId} {sizeDelta : Decimal} {collateralDelta : Amount}
    {price : Price} {schedule : MarginSchedule} {now : Instant} {posted : Posted Amount}
    (h : l.modify target sizeDelta collateralDelta price schedule now = .ok posted)
    (hstored : l.Stored) (hnext : posted.ledger.Stored)
    (he : posted.ledger.entries.get? id = some e) :
    l.Becomes (.modify target sizeDelta collateralDelta price schedule now)
      (.modified posted.result) e := by
  obtain ⟨current, tier, p, notice, hheld, htier, -, hcontinues, hpriced, hbacked, -, hamends⟩ :=
    modify_terms h
  have hsame := hcontinues.identity
  have htarget : p.id = target := (Position.id_eq_of_identity hsame).trans (hstored _ _ hheld)
  refine becomes_of_write hnext hamends.get?_entries ?_ (fun other hother _ => ?_) he
  · have hassess : (Operation.modify target sizeDelta collateralDelta price schedule
        now).assessment? (.modified posted.result) p.id = some (schedule, price) :=
      if_pos htarget.symm
    exact .assessed hassess (Position.market_eq_of_identity hsame ▸ htier) hpriced
      hamends.markedAt (.amended (htarget ▸ hheld) hsame hbacked)
  · have hassess : (Operation.modify target sizeDelta collateralDelta price schedule
        now).assessment? (.modified posted.result) other = none :=
      if_neg fun heq => hother (heq.symm.trans htarget.symm)
    exact congrArg (Option.map Prod.snd) hassess

/-- Closing does nothing to the positions that stay. -/
theorem get?_of_closes {target : PositionId} {p : Position} {now : Instant}
    (hcloses : Closes l target p now next) (he : next.entries.get? id = some e) :
    id ≠ p.id ∧ l.entries.get? id = some e := by
  rw [hcloses.get?_entries] at he
  by_cases hid : id = p.id
  · rw [if_pos hid] at he
    cases he
  · rw [if_neg hid] at he
    exact ⟨hid, he⟩

theorem close_becomes {target : PositionId} {price : Price} {now : Instant}
    {posted : Posted Closure} (h : l.close target price now = .ok posted) (hstored : l.Stored)
    (he : posted.ledger.entries.get? id = some e) :
    l.Becomes (.close target price now) (.closed posted.result) e := by
  obtain ⟨-, hcloses⟩ := close_eq_ok h
  obtain ⟨-, hold⟩ := get?_of_closes hcloses he
  rw [← hstored _ _ (position?_of_entry hold)] at hold
  exact .of_untouched rfl hold

/-- A position that was reduced by force, one time or more, since it stood as in `l`. -/
inductive Reduced (l : Ledger) (schedule : MarginSchedule) (price : Price) (e : Entry) : Prop
  | intro {tier : MarginTier} {current : Position}
      (held : l.position? e.position.id = some current)
      (same : e.position.identity = current.identity)
      (listed : schedule.tier? e.position.market = some tier)
      (priced : e.position.PricedBy tier) (marked : e.MarkedAt price)
      (eases : e.position.Eases current)

theorem Reduced.becomes {schedule : MarginSchedule} {price : Price}
    (h : l.Reduced schedule price e)
    (hassess : op.assessment? reply e.position.id = some (schedule, price)) :
    l.Becomes op reply e := by
  obtain ⟨hheld, hsame, hlisted, hpriced, hmarked, heases⟩ := h
  exact .assessed hassess hlisted hpriced hmarked (.amended hheld hsame (.inr heases))

/-- What a forced reduction leaves under a number. -/
theorem forceReduce_reduces {target : PositionId} {amount : Decimal} {price : Price}
    {schedule : MarginSchedule} {now : Instant} {posted : Posted Reduction}
    (h : l.forceReduce target amount price schedule now = .ok posted) (hstored : l.Stored)
    (he : posted.ledger.entries.get? id = some e) :
    id = target ∧ l.Reduced schedule price e ∨ id ≠ target ∧ l.entries.get? id = some e := by
  obtain ⟨current, hheld, ⟨-, -, -, hcloses⟩ | ⟨-, -, -, tier, p, notice, htier, hsame, -,
    hpriced, heases, -, hamends⟩⟩ := forceReduce_terms h
  · obtain ⟨hid, hold⟩ := get?_of_closes hcloses he
    rw [hstored _ _ hheld] at hid
    exact .inr ⟨hid, hold⟩
  · have htarget : p.id = target := (Position.id_eq_of_identity hsame).trans (hstored _ _ hheld)
    rw [hamends.get?_entries, htarget] at he
    by_cases hid : id = target
    · rw [if_pos hid, Option.some.injEq] at he
      subst he
      exact .inl ⟨hid, ⟨htarget ▸ hheld, hsame, Position.market_eq_of_identity hsame ▸ htier,
        hpriced, hamends.markedAt, heases⟩⟩
    · rw [if_neg hid] at he
      exact .inr ⟨hid, he⟩

theorem forceReduce_becomes {target : PositionId} {amount : Decimal} {price : Price}
    {schedule : MarginSchedule} {now : Instant} {posted : Posted Reduction}
    (h : l.forceReduce target amount price schedule now = .ok posted) (hstored : l.Stored)
    (hnext : posted.ledger.Stored) (he : posted.ledger.entries.get? id = some e) :
    l.Becomes (.forceReduce target amount price schedule now) (.reduced posted.result) e := by
  have hid := hnext _ _ (position?_of_entry he)
  rcases forceReduce_reduces h hstored he with ⟨htarget, hreduced⟩ | ⟨hother, hold⟩
  · have hassess : (Operation.forceReduce target amount price schedule now).assessment?
        (.reduced posted.result) e.position.id = some (schedule, price) :=
      if_pos (htarget.symm.trans hid.symm)
    exact hreduced.becomes hassess
  · have hassess : (Operation.forceReduce target amount price schedule now).assessment?
        (.reduced posted.result) e.position.id = none :=
      if_neg fun heq => hother (hid.symm.trans heq.symm)
    exact .of_untouched (congrArg (Option.map Prod.snd) hassess) (hid ▸ hold)

/-! ### Deleveraging

A walk may come to a position more than once, so what it leaves is compared with what stood there
before the walk.
-/

/-- What a walk leaves of the ledger it started from. -/
structure WalkReduces (l : Ledger) (schedule : MarginSchedule) (price : Price)
    (w : DeleverageQueue.Walk) : Prop where
  indexed : w.ledger.WellIndexed
  reduced : ∀ id e, w.ledger.entries.get? id = some e →
    id ∈ w.deleveraged.map (·.position) ∧ l.Reduced schedule price e ∨
      id ∉ w.deleveraged.map (·.position) ∧ l.entries.get? id = some e

/-- Reducing what was reduced, or what stood there, is reducing what stood there. -/
theorem WalkReduces.again {schedule : MarginSchedule} {price : Price} {w : DeleverageQueue.Walk}
    (h : WalkReduces l schedule price w) (hreduced : w.ledger.Reduced schedule price e) :
    l.Reduced schedule price e := by
  obtain ⟨hheld, hsame, hlisted, hpriced, hmarked, heases⟩ := hreduced
  obtain ⟨before, hbefore, rfl⟩ := exists_entry hheld
  rcases h.reduced _ _ hbefore with ⟨-, hmid⟩ | ⟨-, hold⟩
  · obtain ⟨hheld', hsame', -, -, -, heases'⟩ := hmid
    rw [← Position.id_eq_of_identity hsame] at hheld'
    exact ⟨hheld', hsame.trans hsame', hlisted, hpriced, hmarked, heases.trans heases'⟩
  · exact ⟨position?_of_entry hold, hsame, hlisted, hpriced, hmarked, heases⟩

theorem WalkReduces.take {shortfall : Shortfall} {schedule : MarginSchedule} {now : Instant}
    {w w' : DeleverageQueue.Walk} {pick : Nat × Candidate}
    (h : WalkReduces l schedule shortfall.price w)
    (htake : w.take shortfall schedule now pick = .ok w') :
    WalkReduces l schedule shortfall.price w' := by
  rcases DeleverageQueue.take_forces htake with
    rfl | ⟨p, posted, -, hforced, hledger, hlisted⟩
  · exact h
  · refine ⟨hledger ▸ h.indexed.change (forceReduce_change hforced), fun id e he => ?_⟩
    rw [hledger] at he
    rw [hlisted, List.map_append, List.mem_append, List.map_cons, List.map_nil,
      List.mem_singleton]
    rcases forceReduce_reduces hforced h.indexed.stored he with ⟨hid, hreduced⟩ | ⟨hid, hold⟩
    · exact .inl ⟨.inr hid, h.again hreduced⟩
    · rcases h.reduced id e hold with ⟨hmem, hreduced⟩ | ⟨hmem, hold⟩
      · exact .inl ⟨.inl hmem, hreduced⟩
      · exact .inr ⟨not_or.2 ⟨hmem, hid⟩, hold⟩

theorem deleverage_becomes {q left : DeleverageQueue} {schedule : MarginSchedule}
    {shortfall : Shortfall} {now : Instant} {coverage : Coverage}
    (h : q.execute l schedule shortfall now = .ok (coverage, left, next))
    (hindexed : l.WellIndexed) (he : next.entries.get? id = some e) :
    l.Becomes (.deleverage q schedule shortfall now) (.covered coverage) e := by
  obtain ⟨terms, walk, -, -, hwalk, rfl, hdeleveraged, -⟩ := DeleverageQueue.execute_eq_ok h
  have hstart : WalkReduces l schedule shortfall.price (.start l shortfall) :=
    ⟨hindexed, fun id e he => .inr ⟨List.not_mem_nil, he⟩⟩
  have hreduces : WalkReduces l schedule shortfall.price walk :=
    foldlM_invariant (fun w pick _ w' hw htake => hw.take htake) hstart hwalk
  have hid := hreduces.indexed.stored _ _ (position?_of_entry he)
  rcases hreduces.reduced id e he with ⟨hmem, hreduced⟩ | ⟨hmem, hold⟩
  · have hassess : (Operation.deleverage q schedule shortfall now).assessment?
        (.covered coverage) e.position.id = some (schedule, shortfall.price) :=
      if_pos (by rwa [hdeleveraged, hid])
    exact hreduced.becomes hassess
  · have hassess : (Operation.deleverage q schedule shortfall now).assessment?
        (.covered coverage) e.position.id = none :=
      if_neg (by rwa [hdeleveraged, hid])
    exact .of_untouched (congrArg (Option.map Prod.snd) hassess) (hid ▸ hold)

/-! ### Marks and funding -/

theorem refresh_becomes {target : PositionId} {mark : Price} {now : Instant} {posted : Posted Bool}
    (h : l.refresh target mark now = .ok posted) (hstored : l.Stored)
    (hnext : posted.ledger.Stored) (he : posted.ledger.entries.get? id = some e) :
    l.Becomes (.refresh target mark now) (.refreshed posted.result) e := by
  obtain ⟨p, pnl, portfolio, notice, hp, hpnl, -, -, -, hledger⟩ := refresh_eq_ok h
  obtain ⟨before, hbefore, rfl⟩ := exists_entry hp
  have htarget : before.position.id = target := hstored _ _ hp
  have hwrite : ∀ id, posted.ledger.entries.get? id = if id = before.position.id then
      some ⟨{ before.position with unrealizedPnl := pnl },
        { before.position with unrealizedPnl := pnl }.isLiquidatableAt mark⟩
      else l.entries.get? id := by
    intro id
    rw [hledger]
    exact get?_entries_record ..
  rw [← htarget] at hbefore
  refine becomes_of_write (p := { before.position with unrealizedPnl := pnl }) hnext hwrite ?_
    (fun other hother _ => if_neg fun heq => hother (heq.symm.trans htarget.symm)) he
  have hterms : { before.position with unrealizedPnl := pnl }.terms = before.position.terms := rfl
  exact .marked rfl (if_pos htarget.symm) hbefore hterms ⟨⟨pnl, hpnl, rfl⟩, rfl⟩

theorem refreshMarket_becomes {market : MarketId} {mark : Price} {now : Instant}
    {posted : Posted (List PositionId)} (h : l.refreshMarket market mark now = .ok posted)
    (hindexed : l.WellIndexed) (hnext : posted.ledger.Stored)
    (he : posted.ledger.entries.get? id = some e) :
    l.Becomes (.refreshMarket market mark now) (.marketRefreshed posted.result) e := by
  obtain ⟨marked, portfolios, hmarked, -, hledger⟩ := refreshMarket_eq_ok h
  have hids := ids_marked hmarked hindexed.stored
  have hnodup := nodup_marked hindexed.stored hmarked
  have hid := hnext _ _ (position?_of_entry he)
  rw [hledger, get?_entries_records hnodup, ← hid] at he
  cases hfind : marked.find? (·.entry.position.id = e.position.id) with
  | some m =>
    rw [hfind, Option.some.injEq] at he
    subst he
    obtain ⟨p, hp, hmarket, hmark⟩ :=
      hindexed.exists_of_marked hmarked (List.mem_of_find?_eq_some hfind)
    obtain ⟨-, hposition, -⟩ := markAt_eq_ok hmark
    obtain ⟨before, hbefore, rfl⟩ := exists_entry hp
    have hterms : m.entry.position.terms = before.position.terms := by
      rw [hposition]
      rfl
    have hsame := congrArg Prod.fst hterms
    rw [← Position.id_eq_of_identity hsame] at hbefore
    rw [← Position.market_eq_of_identity hsame] at hmarket
    exact .marked rfl (if_pos hmarket.symm) hbefore hterms (markedAt_of_markAt hmark)
  | none =>
    rw [hfind] at he
    refine .of_untouched (if_neg fun hmarket => ?_) he
    -- A position of the market is in its list, so it was marked.
    have hlisted : e.position.id ∈ l.idsIn market :=
      (hindexed.listed market _).2 ⟨e.position, position?_of_entry he, hmarket.symm⟩
    rw [← hids, List.mem_map] at hlisted
    obtain ⟨m, hm, hsame⟩ := hlisted
    exact List.find?_eq_none.1 hfind m hm (decide_eq_true hsame)

theorem applyFunding_becomes {payments : List (PositionId × Amount)} {index : Decimal}
    {now : Instant} (h : l.applyFunding payments index now = .ok next) (hnext : next.Stored)
    (he : next.entries.get? id = some e) :
    l.Becomes (.applyFunding payments index now) .fundingApplied e := by
  have hid := hnext _ _ (position?_of_entry he)
  have hkept := map_get?_applyFunding
    (fun e => (e.position.terms, e.position.unrealizedPnl, e.liquidatable)) (fun _ _ _ _ => rfl) h
    id
  rw [he, Option.map_some, eq_comm, Option.map_eq_some_iff] at hkept
  obtain ⟨before, hbefore, hsame⟩ := hkept
  simp only [Prod.mk.injEq] at hsame
  obtain ⟨hterms, hgain, hflag⟩ := hsame
  exact .kept rfl (hid ▸ hbefore) hterms.symm hgain.symm hflag.symm

/-- **What an operation makes of a position.** -/
theorem answer_becomes (hindexed : l.WellIndexed) (h : l.answer op = .ok (reply, next))
    (hnext : next.Stored) (he : next.entries.get? id = some e) : l.Becomes op reply e := by
  cases op with
  | openPosition order schedule now =>
    obtain ⟨posted, hx, rfl, rfl⟩ := posting_eq_ok h
    exact openPosition_becomes hx hnext he
  | modify target sizeDelta collateralDelta price schedule now =>
    obtain ⟨posted, hx, rfl, rfl⟩ := posting_eq_ok h
    exact modify_becomes hx hindexed.stored hnext he
  | close target price now =>
    obtain ⟨posted, hx, rfl, rfl⟩ := posting_eq_ok h
    exact close_becomes hx hindexed.stored he
  | forceReduce target amount price schedule now =>
    obtain ⟨posted, hx, rfl, rfl⟩ := posting_eq_ok h
    exact forceReduce_becomes hx hindexed.stored hnext he
  | refresh target mark now =>
    obtain ⟨posted, hx, rfl, rfl⟩ := posting_eq_ok h
    exact refresh_becomes (refusing_eq_ok.1 hx) hindexed.stored hnext he
  | refreshMarket market mark now =>
    obtain ⟨posted, hx, rfl, rfl⟩ := posting_eq_ok h
    exact refreshMarket_becomes (refusing_eq_ok.1 hx) hindexed hnext he
  | applyFunding payments index now =>
    unfold answer at h
    simp only [bind_eq_ok, refusing_eq_ok, pure_eq_ok, Prod.mk.injEq] at h
    obtain ⟨_, hx, rfl, rfl⟩ := h
    exact applyFunding_becomes hx hnext he
  | deleverage queue schedule shortfall now =>
    obtain ⟨coverage, left, rfl, hx⟩ := deleverage_eq_ok h
    exact deleverage_becomes hx hindexed he

/-- A number that is taken goes on standing for the same position. -/
theorem Becomes.identity (hindexed : l.WellIndexed) (h : l.Becomes op reply e) {before : Entry}
    (hbefore : l.entries.get? e.position.id = some before) :
    e.position.identity = before.position.identity := by
  have hheld := position?_of_entry hbefore
  cases h with
  | assessed _ _ _ _ hadmits =>
    cases hadmits with
    | opened hnumber =>
      have hlt := hindexed.numbered _ _ hheld
      rw [hnumber] at hlt
      exact absurd hlt (Nat.lt_irrefl _)
    | amended hheld' hsame =>
      rw [hheld, Option.some.injEq] at hheld'
      rw [hsame, hheld']
  | marked _ _ hheld' hterms =>
    rw [hbefore, Option.some.injEq] at hheld'
    exact hheld' ▸ congrArg Prod.fst hterms
  | kept _ hheld' hterms =>
    rw [hbefore, Option.some.injEq] at hheld'
    exact hheld' ▸ congrArg Prod.fst hterms

end Ledger

end Clearing

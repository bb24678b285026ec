import Clearing.Ledger.Operation
import Clearing.Proofs.Decimal.Checked
import Clearing.Proofs.Ledger.Views

/-!
What an operation has done when it succeeds.

Whatever is asked of a ledger, it takes one of four kinds of step, or a few of them in turn: a
position is opened, changed or closed, or what is known of positions is restated while their
sizes stay as they are.  `Opens`, `Amends`, `Closes` and `Restates` say all that such a step does
and what has been checked before it, and each operation is taken apart here once.  Invariants
are then proved step by step, four cases each.
-/

namespace Clearing

/-- What indices and open interest depend on: who a position is, and how large. -/
def Position.standing (p : Position) : Position.Identity × Decimal :=
  (p.identity, p.size)

namespace Position

/-- The liquidation price is the one that the position has under a tier. -/
def PricedBy (tier : MarginTier) (p : Position) : Prop :=
  Clearing.liquidationPrice p.side p.size p.entryPrice p.collateral tier = .ok p.liquidationPrice

/-- The collateral is above zero and not below the initial margin, which can be computed. -/
structure BackedBy (tier : MarginTier) (p : Position) : Prop where
  collateral_pos : Decimal.zero < p.collateral
  margined : ∃ notional required, p.notional = .ok notional ∧
    tier.initialMargin notional = .ok required ∧ required ≤ p.collateral

/-- `p` is no larger than `current`, entered at the same price and with no less collateral. -/
structure Eases (p current : Position) : Prop where
  size_le : p.size ≤ current.size
  entryPrice : p.entryPrice = current.entryPrice
  collateral_le : current.collateral ≤ p.collateral

/-- `p` is what `current` may have become at the will of its owner: the same position, still of some
size, and entered where it was or at an average above zero. -/
structure Continues (p current : Position) : Prop where
  identity : p.identity = current.identity
  funding : p.accumulatedFunding = current.accumulatedFunding
  size_pos : Decimal.zero < current.size → Decimal.zero < p.size
  entryPrice : p.entryPrice = current.entryPrice ∨ Decimal.zero < p.entryPrice

/-- `p` is what `current` is after `amount` of it was taken. -/
structure LeftOf (current p : Position) (amount : Decimal) : Prop where
  size : current.size.sub amount "position size" = .ok p.size
  entryPrice : p.entryPrice = current.entryPrice
  collateral : p.collateral = current.collateral
  funding : p.accumulatedFunding = current.accumulatedFunding

end Position

namespace Ledger

/-- The number the next position gets. -/
def nextNumber (l : Ledger) : Nat :=
  Nat.max l.nextId 1

/-- `next` is `l` with `p` opened. -/
structure Opens (l : Ledger) (p : Position) (now : Instant) (notice : Notice) (next : Ledger) :
    Prop where
  number : p.id = ⟨l.nextNumber⟩
  size_pos : .zero < p.size
  unmarked : p.unrealizedPnl = .zero
  notified : p.notice now = .ok notice
  posted : ∃ oi portfolio,
    (l.openInterest p.market).change p.side p.size = .ok oi ∧
    Portfolio.ofPositions p.owner (l.positionsOf p.owner ++ [p]) now = .ok portfolio ∧
    next = (({ l with nextId := l.nextNumber + 1 }.settleTotals p.market oi portfolio).enroll
      p).record ⟨p, p.isLiquidatableAt p.entryPrice⟩

/-- `next` is `l` with `current` changed to `p`, marked at a price. -/
structure Amends (l : Ledger) (current p : Position) (mark : Price) (now : Instant)
    (notice : Notice) (next : Ledger) : Prop where
  marked : p.pnlAt mark = .ok p.unrealizedPnl
  notified : p.notice now = .ok notice
  posted : ∃ delta oi portfolio,
    p.size.sub current.size "open interest delta" = .ok delta ∧
    (l.openInterest p.market).change p.side delta = .ok oi ∧
    Portfolio.ofPositions p.owner (l.positionsWith p) now = .ok portfolio ∧
    next = (l.settleTotals p.market oi portfolio).record ⟨p, p.isLiquidatableAt mark⟩

/-- `next` is `l` with `p` closed, which was open under `id`. -/
structure Closes (l : Ledger) (id : PositionId) (p : Position) (now : Instant) (next : Ledger) :
    Prop where
  held : l.position? id = some p
  posted : ∃ oi portfolio,
    (l.openInterest p.market).change p.side (-p.size) = .ok oi ∧
    Portfolio.ofPositions p.owner ((l.positionsOf p.owner).filter (·.id ≠ id)) now
      = .ok portfolio ∧
    next = (l.settleTotals p.market oi portfolio).dismiss p

/-- `next` is `l` but for what is known of its positions and portfolios. -/
structure Restates (l next : Ledger) : Prop where
  standing : ∀ id,
    (next.position? id).map Position.standing = (l.position? id).map Position.standing
  byOwner : next.byOwner = l.byOwner
  byMarket : next.byMarket = l.byMarket
  openInterests : next.openInterests = l.openInterests
  nextId : next.nextId = l.nextId

/-- A step that hands out no number. -/
inductive Change (l next : Ledger) : Prop
  | amended {id : PositionId} {current p : Position} {mark : Price} {now : Instant}
      {notice : Notice} (held : l.position? id = some current)
      (same : p.identity = current.identity)
      (size_pos : Decimal.zero < current.size → Decimal.zero < p.size)
      (amends : Amends l current p mark now notice next)
  | closed {id : PositionId} {p : Position} {now : Instant} (closes : Closes l id p now next)
  | restated (restates : Restates l next)

/-- Every position is kept under its own number. -/
def Stored (l : Ledger) : Prop :=
  ∀ id p, l.position? id = some p → p.id = id

theorem Stored.position?_id {l : Ledger} (h : l.Stored) {id : PositionId} {p : Position}
    (hp : l.position? id = some p) : l.position? p.id = some p := by
  rw [h id p hp, hp]

/-! ### What a step shows in each view -/

namespace Opens

variable {l next : Ledger} {p : Position} {now : Instant} {notice : Notice}

theorem get?_entries (h : Opens l p now notice next) (id : PositionId) :
    next.entries.get? id =
      if id = p.id then some ⟨p, p.isLiquidatableAt p.entryPrice⟩ else l.entries.get? id := by
  obtain ⟨oi, portfolio, -, -, rfl⟩ := h.posted
  exact get?_entries_record ..

theorem position? (h : Opens l p now notice next) (id : PositionId) :
    next.position? id = if id = p.id then some p else l.position? id := by
  unfold Ledger.position?
  rw [h.get?_entries]
  split <;> rfl

theorem idsOf (h : Opens l p now notice next) (owner : AccountId) :
    next.idsOf owner = if owner = p.owner then l.idsOf owner ++ [p.id] else l.idsOf owner := by
  obtain ⟨oi, portfolio, -, -, rfl⟩ := h.posted
  rw [idsOf_record, idsOf_enroll]
  rfl

theorem mem_idsOf (h : Opens l p now notice next) {owner : AccountId} {id : PositionId} :
    id ∈ next.idsOf owner ↔ id = p.id ∧ owner = p.owner ∨ id ∈ l.idsOf owner := by
  rw [h.idsOf]
  by_cases howner : owner = p.owner
  · rw [if_pos howner, List.mem_append, List.mem_singleton, or_comm, and_iff_left howner]
  · simp [howner]

theorem get?_byOwner (h : Opens l p now notice next) (owner : AccountId) :
    next.byOwner.get? owner =
      if owner = p.owner then some (l.idsOf p.owner ++ [p.id]) else l.byOwner.get? owner := by
  obtain ⟨oi, portfolio, -, -, rfl⟩ := h.posted
  rw [byOwner_record, get?_byOwner_enroll]
  rfl

theorem mem_idsIn (h : Opens l p now notice next) {market : MarketId} {id : PositionId} :
    id ∈ next.idsIn market ↔ id = p.id ∧ market = p.market ∨ id ∈ l.idsIn market := by
  obtain ⟨oi, portfolio, -, -, rfl⟩ := h.posted
  rw [idsIn_record, mem_idsIn_enroll]
  rfl

theorem nextId (h : Opens l p now notice next) : next.nextId = p.id.val + 1 := by
  obtain ⟨oi, portfolio, -, -, rfl⟩ := h.posted
  rw [nextId_record, nextId_enroll, nextId_settleTotals, h.number]

theorem openInterest (h : Opens l p now notice next) : ∃ oi,
    (l.openInterest p.market).change p.side p.size = .ok oi ∧
    ∀ market,
      next.openInterest market = if market = p.market then oi else l.openInterest market := by
  obtain ⟨oi, portfolio, hoi, -, rfl⟩ := h.posted
  refine ⟨oi, hoi, fun market => ?_⟩
  rw [openInterest_record, openInterest_enroll, openInterest_settleTotals]
  rfl

end Opens

namespace Amends

variable {l next : Ledger} {current p : Position} {mark : Price} {now : Instant} {notice : Notice}

theorem get?_entries (h : Amends l current p mark now notice next) (id : PositionId) :
    next.entries.get? id =
      if id = p.id then some ⟨p, p.isLiquidatableAt mark⟩ else l.entries.get? id := by
  obtain ⟨delta, oi, portfolio, -, -, -, rfl⟩ := h.posted
  exact get?_entries_record ..

theorem position? (h : Amends l current p mark now notice next) (id : PositionId) :
    next.position? id = if id = p.id then some p else l.position? id := by
  unfold Ledger.position?
  rw [h.get?_entries]
  split <;> rfl

theorem byOwner (h : Amends l current p mark now notice next) : next.byOwner = l.byOwner := by
  obtain ⟨delta, oi, portfolio, -, -, -, rfl⟩ := h.posted
  rw [byOwner_record, byOwner_settleTotals]

theorem byMarket (h : Amends l current p mark now notice next) : next.byMarket = l.byMarket := by
  obtain ⟨delta, oi, portfolio, -, -, -, rfl⟩ := h.posted
  rfl

theorem nextId (h : Amends l current p mark now notice next) : next.nextId = l.nextId := by
  obtain ⟨delta, oi, portfolio, -, -, -, rfl⟩ := h.posted
  rw [nextId_record, nextId_settleTotals]

theorem openInterest (h : Amends l current p mark now notice next) : ∃ delta oi,
    p.size.sub current.size "open interest delta" = .ok delta ∧
    (l.openInterest p.market).change p.side delta = .ok oi ∧
    ∀ market,
      next.openInterest market = if market = p.market then oi else l.openInterest market := by
  obtain ⟨delta, oi, portfolio, hdelta, hoi, -, rfl⟩ := h.posted
  refine ⟨delta, oi, hdelta, hoi, fun market => ?_⟩
  rw [openInterest_record, openInterest_settleTotals]

end Amends

namespace Closes

variable {l next : Ledger} {id : PositionId} {p : Position} {now : Instant}

theorem get?_entries (h : Closes l id p now next) (other : PositionId) :
    next.entries.get? other = if other = p.id then none else l.entries.get? other := by
  obtain ⟨oi, portfolio, -, -, rfl⟩ := h.posted
  exact get?_entries_dismiss ..

theorem position? (h : Closes l id p now next) (other : PositionId) :
    next.position? other = if other = p.id then none else l.position? other := by
  unfold Ledger.position?
  rw [h.get?_entries]
  split <;> rfl

theorem idsOf (h : Closes l id p now next) (owner : AccountId) :
    next.idsOf owner =
      if owner = p.owner then (l.idsOf owner).filter (· ≠ p.id) else l.idsOf owner := by
  obtain ⟨oi, portfolio, -, -, rfl⟩ := h.posted
  rw [idsOf_dismiss, idsOf_settleTotals]

theorem mem_idsOf (h : Closes l id p now next) {owner : AccountId} {other : PositionId} :
    other ∈ next.idsOf owner ↔ other ∈ l.idsOf owner ∧ (other = p.id → owner ≠ p.owner) := by
  rw [h.idsOf]
  by_cases howner : owner = p.owner <;> simp [howner]

theorem get?_byOwner (h : Closes l id p now next) (owner : AccountId) :
    next.byOwner.get? owner =
      if owner = p.owner then
        ((l.byOwner.get? owner).map fun ids => ids.filter (· ≠ p.id)).filter (· ≠ [])
      else l.byOwner.get? owner := by
  obtain ⟨oi, portfolio, -, -, rfl⟩ := h.posted
  exact get?_withoutPosition p l.byOwner owner

theorem mem_idsIn (h : Closes l id p now next) {market : MarketId} {other : PositionId} :
    other ∈ next.idsIn market ↔
      other ∈ l.idsIn market ∧ (other = p.id → market ≠ p.market) := by
  obtain ⟨oi, portfolio, -, -, rfl⟩ := h.posted
  rw [mem_idsIn_dismiss, idsIn_settleTotals]

theorem nextId (h : Closes l id p now next) : next.nextId = l.nextId := by
  obtain ⟨oi, portfolio, -, -, rfl⟩ := h.posted
  rw [nextId_dismiss, nextId_settleTotals]

theorem openInterest (h : Closes l id p now next) : ∃ oi,
    (l.openInterest p.market).change p.side (-p.size) = .ok oi ∧
    ∀ market,
      next.openInterest market = if market = p.market then oi else l.openInterest market := by
  obtain ⟨oi, portfolio, hoi, -, rfl⟩ := h.posted
  refine ⟨oi, hoi, fun market => ?_⟩
  rw [openInterest_dismiss, openInterest_settleTotals]

end Closes

/-! ### Opening -/

theorem acceptOrder_eq_ok {order : Order} {schedule : MarginSchedule} {tier : MarginTier}
    (h : acceptOrder order schedule = .ok tier) :
    Decimal.zero < order.size ∧ Decimal.zero < order.collateral ∧
      schedule.activeTier? order.market = some tier ∧ order.leverage ≤ tier.maxLeverage := by
  unfold acceptOrder at h
  simp only [ite_throw_eq_ok, Decimal.not_le] at h
  obtain ⟨hsize, hcollateral, h⟩ := h
  split at h
  · rename_i active hactive
    rw [ite_throw_eq_ok, pure_eq_ok, Decidable.not_not] at h
    obtain ⟨hleverage, rfl⟩ := h
    exact ⟨hsize, hcollateral, hactive, hleverage⟩
  · exact absurd h throw_ne_ok

theorem requireInitialMargin_eq_ok {tier : MarginTier} {notional : Decimal} {collateral : Amount}
    {u : Unit} (h : requireInitialMargin tier notional collateral = .ok u) :
    ∃ required, tier.initialMargin notional = .ok required ∧ required ≤ collateral := by
  unfold requireInitialMargin at h
  simp only [bind_eq_ok, computing, refusing_eq_ok] at h
  obtain ⟨required, hrequired, h⟩ := h
  refine ⟨required, hrequired, ?_⟩
  by_contra hshort
  rw [Decimal.not_le] at hshort
  rw [if_pos hshort] at h
  exact absurd h refuse_ne_ok

/-- A position that passes the margin check is backed. -/
theorem backedBy_of_margin {p : Position} {tier : MarginTier} {notional : Decimal} {u : Unit}
    (hpos : .zero < p.collateral) (hnotional : p.notional = .ok notional)
    (h : requireInitialMargin tier notional p.collateral = .ok u) : p.BackedBy tier := by
  obtain ⟨required, hrequired, hcovers⟩ := requireInitialMargin_eq_ok h
  exact ⟨hpos, notional, required, hnotional, hrequired, hcovers⟩

/-- A position is opened under the active tier of its market, within its leverage, backed and
priced by it. -/
theorem openPosition_terms {l : Ledger} {order : Order} {schedule : MarginSchedule}
    {now : Instant} {posted : Posted PositionId}
    (h : l.openPosition order schedule now = .ok posted) :
    ∃ tier price notice, schedule.activeTier? order.market = some tier ∧
      order.leverage ≤ tier.maxLeverage ∧
      (order.toPosition posted.result price now).BackedBy tier ∧
      (order.toPosition posted.result price now).PricedBy tier ∧
      posted.result = ⟨l.nextNumber⟩ ∧ posted.notices = [notice] ∧
      Opens l (order.toPosition posted.result price now) now notice posted.ledger := by
  unfold openPosition at h
  simp only [bind_eq_ok, computing, refusing_eq_ok, inTermsOf_eq_ok, pure_eq_ok] at h
  obtain ⟨tier, htier, notional, hnotional, ⟨⟩, hmargin, price, hprice, oi, hoi, portfolio,
    hportfolio, notice, hnotice, rfl⟩ := h
  obtain ⟨hsize, hcollateral, hactive, hleverage⟩ := acceptOrder_eq_ok htier
  exact ⟨tier, price, notice, hactive, hleverage,
    backedBy_of_margin hcollateral hnotional hmargin, hprice, rfl, rfl,
    rfl, hsize, rfl, hnotice, oi, portfolio, hoi, hportfolio, rfl⟩

theorem openPosition_eq_ok {l : Ledger} {order : Order} {schedule : MarginSchedule}
    {now : Instant} {posted : Posted PositionId}
    (h : l.openPosition order schedule now = .ok posted) :
    ∃ price notice, posted.result = ⟨l.nextNumber⟩ ∧ posted.notices = [notice] ∧
      Opens l (order.toPosition posted.result price now) now notice posted.ledger := by
  obtain ⟨-, price, notice, -, -, -, -, hresult, hnotices, hopens⟩ := openPosition_terms h
  exact ⟨price, notice, hresult, hnotices, hopens⟩

/-! ### Changing -/

theorem amend_eq_ok {l next : Ledger} {current updated : Position} {mark : Price}
    {tier : MarginTier} {now : Instant} {notice : Notice}
    (h : l.amend current updated mark tier now = .ok (next, notice)) :
    ∃ price pnl,
      { updated with liquidationPrice := price, unrealizedPnl := pnl, updatedAt := now }.PricedBy
        tier ∧
      Amends l current
        { updated with liquidationPrice := price, unrealizedPnl := pnl, updatedAt := now } mark now
        notice next := by
  unfold amend at h
  simp only [bind_eq_ok, computing, refusing_eq_ok, inTermsOf_eq_ok, pure_eq_ok, Prod.mk.injEq]
    at h
  obtain ⟨price, hprice, pnl, hpnl, delta, hdelta, oi, hoi, portfolio, hportfolio, notice',
    hnotice, rfl, rfl⟩ := h
  exact ⟨price, pnl, hprice, hpnl, hnotice, delta, oi, portfolio, hdelta, hoi, hportfolio, rfl⟩

/-- What is left after taking something is no more. -/
theorem size_le_of_sub {size amount left : Decimal} {quantity : String}
    (hamount : Decimal.zero < amount) (h : size.sub amount quantity = .ok left) : left ≤ size := by
  rw [Decimal.zero_lt_iff] at hamount
  exact Decimal.le_iff_units.2 (Decimal.rounded?_mono (by omega) (Decimal.units_of_sub h)
    (Decimal.rounded?_units size))

/-- An average that is not above zero leaves the entry price as it was. -/
theorem entryPrice_of_averaged {size added : Decimal} {entry fill average : Price}
    (h : averagedEntryPrice size entry added fill = .ok average) :
    average = entry ∨ Decimal.zero < average := by
  unfold averagedEntryPrice at h
  simp only [bind_eq_ok, pure_eq_ok] at h
  obtain ⟨-, -, -, -, -, -, -, -, value, -, rfl⟩ := h
  unfold Price.ofPositive?
  split
  · exact .inr ‹_›
  · exact .inl rfl

theorem resize_eq_ok {current resized : Position} {sizeDelta : Decimal} {pnl realized : Amount}
    {price : Price} (h : resize current sizeDelta pnl price = .ok (resized, realized)) :
    resized.Continues current ∧
      (¬ Decimal.zero < sizeDelta →
        resized.size ≤ current.size ∧ resized.entryPrice = current.entryPrice) := by
  unfold resize at h
  by_cases hless : sizeDelta < .zero
  · rw [if_pos hless] at h
    simp only [ite_refuse_eq_ok, bind_eq_ok, computing, refusing_eq_ok, pure_eq_ok,
      Prod.mk.injEq, Decimal.not_le] at h
    obtain ⟨hleft, -, -, size, hsize, rfl, -⟩ := h
    refine ⟨⟨rfl, rfl, fun _ => Decimal.sub_pos hsize hleft, .inl rfl⟩,
      fun _ => ⟨size_le_of_sub ?_ hsize, rfl⟩⟩
    rw [Decimal.lt_iff_units, Decimal.units_zero] at hless
    rw [Decimal.zero_lt_iff, Decimal.units_neg]
    omega
  · rw [if_neg hless] at h
    by_cases hadded : Decimal.zero < sizeDelta
    · rw [if_pos hadded] at h
      simp only [bind_eq_ok, computing, refusing_eq_ok, pure_eq_ok, Prod.mk.injEq] at h
      obtain ⟨entry, hentry, size, hsize, rfl, -⟩ := h
      exact ⟨⟨rfl, rfl, fun hpos => Decimal.add_pos hsize hpos hadded,
        entryPrice_of_averaged hentry⟩, fun hnot => absurd hadded hnot⟩
    · rw [if_neg hadded, pure_eq_ok, Prod.mk.injEq] at h
      obtain ⟨rfl, -⟩ := h
      exact ⟨⟨rfl, rfl, fun hpos => hpos, .inl rfl⟩,
        fun _ => ⟨Decimal.le_iff_units.2 (Int.le_refl _), rfl⟩⟩

/-- Where no size is added and no collateral is taken out, the position is eased. -/
theorem eases_of_resize {current resized : Position} {sizeDelta : Decimal}
    {pnl realized collateralDelta collateral : Amount} {price : Price} {quantity : String}
    (h : resize current sizeDelta pnl price = .ok (resized, realized))
    (hcollateral : current.collateral.add collateralDelta quantity = .ok collateral)
    (hadded : ¬Decimal.zero < sizeDelta) (htaken : ¬collateralDelta < .zero) :
    { resized with collateral := collateral }.Eases current := by
  obtain ⟨hsize, hentry⟩ := (resize_eq_ok h).2 hadded
  refine ⟨hsize, hentry, ?_⟩
  rw [Decimal.lt_iff_units, Decimal.units_zero] at htaken
  exact Decimal.le_iff_units.2 (Decimal.rounded?_mono (by omega)
    (Decimal.rounded?_units current.collateral) (Decimal.units_of_add hcollateral))

/-- The tier that a change is made under is the tier of the market, and an active one if size is
added. -/
theorem tier?_of_change {schedule : MarginSchedule} {market : MarketId} {sizeDelta : Decimal}
    {tier : MarginTier}
    (h : (if .zero < sizeDelta then schedule.activeTier? market else schedule.tier? market)
      = some tier) :
    schedule.tier? market = some tier ∧
      (Decimal.zero < sizeDelta → schedule.activeTier? market ≠ none) := by
  split at h
  · refine ⟨(Option.filter_eq_some_iff.1 h).1, fun _ => ?_⟩
    rw [h]
    exact Option.some_ne_none _
  · rename_i hadded
    exact ⟨h, fun hadds => absurd hadds hadded⟩

/-- A change ends in one write, whether the margin check is made or not: of what resizing makes of
the position, with its new collateral.  Where that takes on risk it is backed, and otherwise it is
eased. -/
theorem modify_amends {l : Ledger} {id : PositionId} {sizeDelta : Decimal}
    {collateralDelta : Amount} {price : Price} {schedule : MarginSchedule} {now : Instant}
    {posted : Posted Amount}
    (h : l.modify id sizeDelta collateralDelta price schedule now = .ok posted) :
    ∃ current tier pnl resized realized collateral total next notice,
      l.position? id = some current ∧
      (if .zero < sizeDelta then schedule.activeTier? current.market
        else schedule.tier? current.market) = some tier ∧
      current.pnlAt price = .ok pnl ∧ resize current sizeDelta pnl price = .ok (resized, realized) ∧
      (if .zero < sizeDelta ∨ collateralDelta < .zero then
        { resized with collateral := collateral }.BackedBy tier
      else { resized with collateral := collateral }.Eases current) ∧
      resized.realizedPnl.add realized "realized pnl" = .ok total ∧
      l.amend current { resized with collateral := collateral, realizedPnl := total } price tier now
        = .ok (next, notice) ∧
      posted = ⟨realized, next, [notice]⟩ := by
  unfold modify at h
  simp only [bind_eq_ok, get, refusing_eq_ok, find_eq_ok] at h
  obtain ⟨current, hcurrent, h⟩ := h
  split at h
  · rename_i tier htier
    simp only [bind_eq_ok, computing, refusing_eq_ok, ite_refuse_eq_ok, Decimal.not_le] at h
    obtain ⟨pnl, hpnl, ⟨resized, realized⟩, hresize, collateral, hcollateral, hpositive, h⟩ := h
    by_cases hrisk : .zero < sizeDelta ∨ collateralDelta < .zero
    · rw [if_pos hrisk] at h
      simp only [bind_eq_ok, refusing_eq_ok, pure_eq_ok] at h
      obtain ⟨notional, hnotional, ⟨⟩, hmargin, total, htotal, ⟨next, notice⟩, hamend, rfl⟩ := h
      refine ⟨current, tier, pnl, resized, realized, collateral, total, next, notice, hcurrent,
        htier, hpnl, hresize, ?_, htotal, hamend, rfl⟩
      rw [if_pos hrisk]
      exact backedBy_of_margin hpositive hnotional hmargin
    · rw [if_neg hrisk] at h
      simp only [bind_eq_ok, refusing_eq_ok, pure_eq_ok] at h
      obtain ⟨total, htotal, ⟨next, notice⟩, hamend, rfl⟩ := h
      refine ⟨current, tier, pnl, resized, realized, collateral, total, next, notice, hcurrent,
        htier, hpnl, hresize, ?_, htotal, hamend, rfl⟩
      rw [if_neg hrisk]
      obtain ⟨hadded, htaken⟩ := not_or.1 hrisk
      exact eases_of_resize hresize hcollateral hadded htaken
  · exact absurd h refuse_ne_ok

/-- The position that a change makes is priced by the tier of its market; where it takes on risk it
is backed by that tier, and otherwise it is eased.  It does not grow in a market that is not
active. -/
theorem modify_margined {l : Ledger} {id : PositionId} {sizeDelta : Decimal}
    {collateralDelta : Amount} {price : Price} {schedule : MarginSchedule} {now : Instant}
    {posted : Posted Amount}
    (h : l.modify id sizeDelta collateralDelta price schedule now = .ok posted) :
    ∃ current tier p notice, l.position? id = some current ∧
      schedule.tier? current.market = some tier ∧
      (schedule.activeTier? current.market = none → p.size ≤ current.size) ∧
      p.Continues current ∧ p.PricedBy tier ∧
      (if Decimal.zero < sizeDelta ∨ collateralDelta < .zero then p.BackedBy tier
        else p.Eases current) ∧ posted.notices = [notice] ∧
      Amends l current p price now notice posted.ledger := by
  obtain ⟨current, tier, pnl, resized, realized, collateral, total, next, notice, hcurrent, htier,
    -, hresize, hmargined, -, hamend, rfl⟩ := modify_amends h
  obtain ⟨hkept, hactive⟩ := tier?_of_change htier
  obtain ⟨⟨hsame, hfunding, hpos, hentry⟩, hreduced⟩ := resize_eq_ok hresize
  obtain ⟨price', pnl', hpriced, hamends⟩ := amend_eq_ok hamend
  refine ⟨current, tier, _, notice, hcurrent, hkept, ?_, ?_, hpriced, ?_, rfl, hamends⟩
  · intro hinactive
    exact (hreduced fun hadded => hactive hadded hinactive).1
  · exact ⟨hsame, hfunding, hpos, hentry⟩
  · -- The figures that are worked out last have no part in the margin.
    split
    · rename_i hrisk
      rw [if_pos hrisk] at hmargined
      exact ⟨hmargined.collateral_pos, hmargined.margined⟩
    · rename_i hrisk
      rw [if_neg hrisk] at hmargined
      exact ⟨hmargined.size_le, hmargined.entryPrice, hmargined.collateral_le⟩

/-- However the margin check comes out, the position is backed or eased. -/
theorem modify_terms {l : Ledger} {id : PositionId} {sizeDelta : Decimal}
    {collateralDelta : Amount} {price : Price} {schedule : MarginSchedule} {now : Instant}
    {posted : Posted Amount}
    (h : l.modify id sizeDelta collateralDelta price schedule now = .ok posted) :
    ∃ current tier p notice, l.position? id = some current ∧
      schedule.tier? current.market = some tier ∧
      (schedule.activeTier? current.market = none → p.size ≤ current.size) ∧
      p.Continues current ∧ p.PricedBy tier ∧
      (p.BackedBy tier ∨ p.Eases current) ∧ posted.notices = [notice] ∧
      Amends l current p price now notice posted.ledger := by
  obtain ⟨current, tier, p, notice, hheld, htier, hdormant, hcontinues, hpriced, hmargined,
    hnotices, hamends⟩ := modify_margined h
  refine ⟨current, tier, p, notice, hheld, htier, hdormant, hcontinues, hpriced, ?_, hnotices,
    hamends⟩
  split at hmargined
  · exact .inl hmargined
  · exact .inr hmargined

theorem modify_eq_ok {l : Ledger} {id : PositionId} {sizeDelta : Decimal}
    {collateralDelta : Amount} {price : Price} {schedule : MarginSchedule} {now : Instant}
    {posted : Posted Amount}
    (h : l.modify id sizeDelta collateralDelta price schedule now = .ok posted) :
    ∃ current p notice, l.position? id = some current ∧ p.identity = current.identity ∧
      (Decimal.zero < current.size → Decimal.zero < p.size) ∧ posted.notices = [notice] ∧
      Amends l current p price now notice posted.ledger := by
  obtain ⟨current, -, p, notice, hheld, -, -, hcontinues, -, -, hnotices, hamends⟩ :=
    modify_terms h
  exact ⟨current, p, notice, hheld, hcontinues.identity, hcontinues.size_pos, hnotices, hamends⟩

theorem modify_change {l : Ledger} {id : PositionId} {sizeDelta : Decimal}
    {collateralDelta : Amount} {price : Price} {schedule : MarginSchedule} {now : Instant}
    {posted : Posted Amount}
    (h : l.modify id sizeDelta collateralDelta price schedule now = .ok posted) :
    Change l posted.ledger := by
  obtain ⟨current, p, notice, hheld, hsame, hpos, -, hamends⟩ := modify_eq_ok h
  exact .amended hheld hsame hpos hamends

/-! ### Closing and reducing -/

theorem close_eq_ok {l : Ledger} {id : PositionId} {price : Price} {now : Instant}
    {posted : Posted Closure} (h : l.close id price now = .ok posted) :
    posted.notices = [.left posted.result.position.market id posted.result.position.side] ∧
      Closes l id posted.result.position now posted.ledger := by
  unfold close at h
  simp only [bind_eq_ok, get, computing, refusing_eq_ok, find_eq_ok, pure_eq_ok] at h
  obtain ⟨p, hp, -, -, realized, -, oi, hoi, portfolio, hportfolio, rfl⟩ := h
  exact ⟨rfl, hp, oi, portfolio, hoi, hportfolio, rfl⟩

/-- A forced reduction closes the position or changes it, as the amount covers the size or not.
What is left is eased, and priced by the tier of its market. -/
theorem forceReduce_terms {l : Ledger} {id : PositionId} {amount : Decimal} {price : Price}
    {schedule : MarginSchedule} {now : Instant} {posted : Posted Reduction}
    (h : l.forceReduce id amount price schedule now = .ok posted) :
    ∃ current, l.position? id = some current ∧
      (current.size ≤ amount ∧ posted.result.fullyClosed = true ∧
          posted.result.sizeClosed = current.size ∧ Closes l id current now posted.ledger ∨
        amount < current.size ∧ posted.result.fullyClosed = false ∧
          posted.result.sizeClosed = amount ∧
          ∃ tier p notice, schedule.tier? current.market = some tier ∧
            p.identity = current.identity ∧ Decimal.zero < p.size ∧ p.PricedBy tier ∧
            p.Eases current ∧ current.LeftOf p amount ∧
            Amends l current p price now notice posted.ledger) := by
  unfold forceReduce at h
  simp only [ite_refuse_eq_ok, bind_eq_ok, get, refusing_eq_ok, find_eq_ok, Decimal.not_le] at h
  obtain ⟨hamount, current, hcurrent, h⟩ := h
  refine ⟨current, hcurrent, ?_⟩
  split at h
  · rename_i hcovers
    rw [bind_eq_ok] at h
    obtain ⟨closed, hclose, h⟩ := h
    rw [pure_eq_ok] at h
    obtain ⟨-, hcloses⟩ := close_eq_ok hclose
    have hp : closed.result.position = current :=
      Option.some.inj (hcloses.held.symm.trans hcurrent)
    subst h
    exact .inl ⟨hcovers, rfl, rfl, hp ▸ hcloses⟩
  · rename_i hcovers
    split at h
    · rename_i tier htier
      simp only [bind_eq_ok, computing, refusing_eq_ok, pure_eq_ok] at h
      obtain ⟨pnl, -, realized, -, size, hsize, total, -, ⟨next, notice⟩, hamend, rfl⟩ := h
      obtain ⟨price', pnl', hpriced, hamends⟩ := amend_eq_ok hamend
      rw [Decimal.not_le] at hcovers
      refine .inr ⟨hcovers, rfl, rfl, tier, _, notice, htier, ?_, ?_, hpriced, ?_,
        ⟨hsize, rfl, rfl, rfl⟩, hamends⟩
      · rfl
      · exact Decimal.sub_pos hsize hcovers
      · exact ⟨size_le_of_sub hamount hsize, rfl, Decimal.le_iff_units.2 (Int.le_refl _)⟩
    · exact absurd h refuse_ne_ok

theorem forceReduce_eq_ok {l : Ledger} {id : PositionId} {amount : Decimal} {price : Price}
    {schedule : MarginSchedule} {now : Instant} {posted : Posted Reduction}
    (h : l.forceReduce id amount price schedule now = .ok posted) :
    ∃ current, l.position? id = some current ∧
      (current.size ≤ amount ∧ posted.result.fullyClosed = true ∧
          Closes l id current now posted.ledger ∨
        amount < current.size ∧ posted.result.fullyClosed = false ∧
          ∃ p notice, p.identity = current.identity ∧ Decimal.zero < p.size ∧
            Amends l current p price now notice posted.ledger) := by
  obtain ⟨current, hcurrent, ⟨hcovers, hwhole, -, hcloses⟩ | ⟨hless, hpart, -, -, p, notice, -,
    hsame, hpos, -, -, -, hamends⟩⟩ := forceReduce_terms h
  · exact ⟨current, hcurrent, .inl ⟨hcovers, hwhole, hcloses⟩⟩
  · exact ⟨current, hcurrent, .inr ⟨hless, hpart, p, notice, hsame, hpos, hamends⟩⟩

theorem forceReduce_change {l : Ledger} {id : PositionId} {amount : Decimal} {price : Price}
    {schedule : MarginSchedule} {now : Instant} {posted : Posted Reduction}
    (h : l.forceReduce id amount price schedule now = .ok posted) : Change l posted.ledger := by
  obtain ⟨current, hcurrent, ⟨-, -, hcloses⟩ | ⟨-, -, p, notice, hsame, hpos, hamends⟩⟩ :=
    forceReduce_eq_ok h
  · exact .closed hcloses
  · exact .amended hcurrent hsame (fun _ => hpos) hamends

/-- A forced reduction concerns one position, which is gone if it was reduced to nothing. -/
theorem position?_forceReduce {l : Ledger} (hstored : l.Stored) {id : PositionId}
    {amount : Decimal} {price : Price} {schedule : MarginSchedule} {now : Instant}
    {posted : Posted Reduction}
    (h : l.forceReduce id amount price schedule now = .ok posted) :
    (∀ other, other ≠ id → posted.ledger.position? other = l.position? other) ∧
      (posted.result.fullyClosed = true → posted.ledger.position? id = none) := by
  obtain ⟨current, hcurrent, ⟨-, -, hcloses⟩ | ⟨-, hpart, p, notice, hsame, -, hamends⟩⟩ :=
    forceReduce_eq_ok h
  · have hid := hstored id current hcurrent
    refine ⟨fun other hother => ?_, fun _ => ?_⟩
    · rw [hcloses.position?, hid, if_neg hother]
    · rw [hcloses.position?, hid, if_pos rfl]
  · have hid := (Position.id_eq_of_identity hsame).trans (hstored id current hcurrent)
    refine ⟨fun other hother => ?_, fun hfully => ?_⟩
    · rw [hamends.position?, hid, if_neg hother]
    · rw [hpart] at hfully
      cases hfully

/-! ### Restating -/

namespace Restates

theorem refl (l : Ledger) : Restates l l :=
  ⟨fun _ => rfl, rfl, rfl, rfl, rfl⟩

theorem trans {l mid next : Ledger} (h : Restates l mid) (h' : Restates mid next) :
    Restates l next where
  standing id := (h'.standing id).trans (h.standing id)
  byOwner := h'.byOwner.trans h.byOwner
  byMarket := h'.byMarket.trans h.byMarket
  openInterests := h'.openInterests.trans h.openInterests
  nextId := h'.nextId.trans h.nextId

theorem portfolios (l : Ledger) (t : Table AccountId Portfolio) :
    Restates l { l with portfolios := t } :=
  ⟨fun _ => rfl, rfl, rfl, rfl, rfl⟩

theorem record {l : Ledger} {e : Entry}
    (h : (l.position? e.position.id).map Position.standing = some e.position.standing) :
    Restates l (l.record e) where
  standing id := by
    rw [position?_record]
    by_cases hid : id = e.position.id
    · rw [if_pos hid, hid, h, Option.map_some]
    · rw [if_neg hid]
  byOwner := rfl
  byMarket := rfl
  openInterests := rfl
  nextId := rfl

theorem foldl {α : Type} {f : Ledger → α → Ledger} {P : Ledger → α → Prop}
    (hf : ∀ l a, P l a → Restates l (f l a))
    (hP : ∀ {l next} a, Restates l next → P l a → P next a) :
    ∀ (as : List α) (l : Ledger), (∀ a ∈ as, P l a) → Restates l (as.foldl f l)
  | [], l, _ => refl l
  | a :: as, l, h => by
    have hfirst := hf l a (h a (List.mem_cons_self ..))
    have hrest : ∀ b ∈ as, P (f l a) b := fun b hb => hP b hfirst (h b (List.mem_cons_of_mem _ hb))
    exact hfirst.trans (foldl hf hP as (f l a) hrest)

end Restates

theorem refresh_eq_ok {l : Ledger} {id : PositionId} {mark : Price} {now : Instant}
    {posted : Posted Bool} (h : l.refresh id mark now = .ok posted) :
    ∃ p pnl portfolio notice, l.position? id = some p ∧ p.pnlAt mark = .ok pnl ∧
      Portfolio.ofPositions p.owner (l.positionsWith { p with unrealizedPnl := pnl }) now
        = .ok portfolio ∧
      { p with unrealizedPnl := pnl }.notice now = .ok notice ∧ posted.notices = [notice] ∧
      posted.ledger = { l with portfolios := l.portfolios.insert p.owner portfolio }.record
        ⟨{ p with unrealizedPnl := pnl },
          { p with unrealizedPnl := pnl }.isLiquidatableAt mark⟩ := by
  unfold refresh at h
  simp only [bind_eq_ok, find_eq_ok, mapError_eq_ok, pure_eq_ok] at h
  obtain ⟨p, hp, pnl, hpnl, portfolio, hportfolio, notice, hnotice, rfl⟩ := h
  exact ⟨p, pnl, portfolio, notice, hp, hpnl, hportfolio, hnotice, rfl, rfl⟩

theorem refresh_restates {l : Ledger} (hstored : l.Stored) {id : PositionId} {mark : Price}
    {now : Instant} {posted : Posted Bool} (h : l.refresh id mark now = .ok posted) :
    Restates l posted.ledger := by
  obtain ⟨p, pnl, portfolio, notice, hp, -, -, -, -, hledger⟩ := refresh_eq_ok h
  rw [hledger]
  refine (Restates.portfolios l _).trans (Restates.record ?_)
  show (l.position? p.id).map _ = _
  rw [hstored.position?_id hp]
  rfl

theorem markAt_eq_ok {p : Position} {mark : Price} {now : Instant} {m : Marked}
    (h : markAt p mark now = .ok m) :
    p.pnlAt mark = .ok m.entry.position.unrealizedPnl ∧
      m.entry.position = { p with unrealizedPnl := m.entry.position.unrealizedPnl } ∧
      m.entry.position.notice now = .ok m.notice := by
  unfold markAt at h
  simp only [bind_eq_ok, pure_eq_ok] at h
  obtain ⟨pnl, hpnl, notice, hnotice, rfl⟩ := h
  exact ⟨hpnl, rfl, hnotice⟩

/-- Open positions marked at a price, in turn. -/
abbrev Marking (l : Ledger) (mark : Price) (now : Instant) (ids : List PositionId)
    (marked : List Marked) : Prop :=
  List.Forall₂ (fun id m => ∃ p, l.position? id = some p ∧ markAt p mark now = .ok m) ids marked

/-- A market is marked position by position, from what the ledger held before the first. -/
theorem refreshMarket_eq_ok {l : Ledger} {market : MarketId} {mark : Price} {now : Instant}
    {posted : Posted (List PositionId)} (h : l.refreshMarket market mark now = .ok posted) :
    ∃ marked portfolios, l.Marking mark now (l.idsIn market) marked ∧
      posted.notices = marked.map (·.notice) ∧
      posted.ledger = marked.foldl (fun l m => l.record m.entry)
        { l with portfolios := portfolios } := by
  unfold refreshMarket at h
  simp only [bind_eq_ok, mapM_eq_ok, find_eq_ok, mapError_eq_ok, pure_eq_ok] at h
  obtain ⟨marked, hmarked, portfolios, -, rfl⟩ := h
  exact ⟨marked, _, hmarked, rfl, rfl⟩

section marked

variable {l : Ledger} {ids : List PositionId} {marked : List Marked} {mark : Price} {now : Instant}
  (hmarked : l.Marking mark now ids marked)

include hmarked

/-- What is marked is an open position, with another gain and reported with it. -/
theorem exists_of_mem_marked {m : Marked} (hm : m ∈ marked) :
    ∃ id p, l.position? id = some p ∧
      m.entry.position = { p with unrealizedPnl := m.entry.position.unrealizedPnl } ∧
      m.entry.position.notice now = .ok m.notice := by
  obtain ⟨id, -, p, hp, hmark⟩ := exists_of_forall₂ hmarked hm
  obtain ⟨-, hposition, hnotice⟩ := markAt_eq_ok hmark
  exact ⟨id, p, hp, hposition, hnotice⟩

/-- Marking changes nothing of a position that does not depend on its gain. -/
theorem map_position?_marked (hstored : l.Stored) {κ : Type} (f : Position → κ)
    (hf : ∀ (p : Position) pnl, f { p with unrealizedPnl := pnl } = f p) {m : Marked}
    (hm : m ∈ marked) :
    (l.position? m.entry.position.id).map f = some (f m.entry.position) := by
  obtain ⟨id, p, hp, hposition, -⟩ := exists_of_mem_marked hmarked hm
  rw [hposition, hf]
  show (l.position? p.id).map f = some (f p)
  rw [hstored.position?_id hp, Option.map_some]

theorem ids_marked (hstored : l.Stored) : marked.map (·.entry.position.id) = ids := by
  induction hmarked with
  | nil => rfl
  | @cons id m ids marked hm _ ih =>
    obtain ⟨p, hp, hmark⟩ := hm
    obtain ⟨-, hposition, -⟩ := markAt_eq_ok hmark
    rw [List.map_cons, ih, hposition]
    exact congrArg (· :: ids) (hstored id p hp)

end marked

theorem nodup_marked {l : Ledger} (hstored : l.Stored) {market : MarketId} {mark : Price}
    {now : Instant} {marked : List Marked} (hmarked : l.Marking mark now (l.idsIn market) marked) :
    (marked.map (·.entry.position.id)).Nodup := by
  rw [ids_marked hmarked hstored]
  exact Table.keys_nodup _

/-- What was marked is found as it was marked. -/
theorem get?_entries_records {marked : List Marked}
    (hnodup : (marked.map (·.entry.position.id)).Nodup) (l : Ledger)
    (id : PositionId) :
    (marked.foldl (fun l m => l.record m.entry) l).entries.get? id =
      match marked.find? (·.entry.position.id = id) with
      | some m => some m.entry
      | none => l.entries.get? id := by
  induction marked generalizing l with
  | nil => rfl
  | cons m rest ih =>
    rw [List.map_cons, List.nodup_cons] at hnodup
    obtain ⟨hnew, hnodup⟩ := hnodup
    rw [List.foldl_cons, ih hnodup]
    by_cases hid : m.entry.position.id = id
    · have hnone : rest.find? (·.entry.position.id = id) = none := by
        refine List.find?_eq_none.2 fun m' hm' heq => ?_
        rw [decide_eq_true_eq] at heq
        exact hnew (List.mem_map.2 ⟨m', hm', heq.trans hid.symm⟩)
      rw [hnone, List.find?_cons_of_pos (by simpa using hid), get?_entries_record, if_pos hid.symm]
    · rw [List.find?_cons_of_neg (by simpa using hid)]
      cases rest.find? (·.entry.position.id = id) with
      | some m' => rfl
      | none =>
        dsimp only
        rw [get?_entries_record, if_neg (Ne.symm hid)]

/-- Marking a market changes nothing of a position that does not depend on its gain. -/
theorem map_position?_refreshMarket {l : Ledger} (hstored : l.Stored) {κ : Type} (f : Position → κ)
    (hf : ∀ (p : Position) pnl, f { p with unrealizedPnl := pnl } = f p) {market : MarketId}
    {mark : Price} {now : Instant} {posted : Posted (List PositionId)}
    (h : l.refreshMarket market mark now = .ok posted) (id : PositionId) :
    (posted.ledger.position? id).map f = (l.position? id).map f := by
  obtain ⟨marked, portfolios, hmarked, -, hledger⟩ := refreshMarket_eq_ok h
  have hnodup := nodup_marked hstored hmarked
  have hentry := get?_entries_records hnodup { l with portfolios := portfolios } id
  unfold position?
  rw [hledger, hentry]
  cases hfind : marked.find? (·.entry.position.id = id) with
  | none => rfl
  | some m =>
    have hid : m.entry.position.id = id := by simpa using List.find?_some hfind
    have hheld := map_position?_marked hmarked hstored f hf (List.mem_of_find?_eq_some hfind)
    rw [hid] at hheld
    exact hheld.symm

theorem refreshMarket_restates {l : Ledger} (hstored : l.Stored) {market : MarketId}
    {mark : Price} {now : Instant} {posted : Posted (List PositionId)}
    (h : l.refreshMarket market mark now = .ok posted) : Restates l posted.ledger := by
  obtain ⟨marked, portfolios, hmarked, -, hledger⟩ := refreshMarket_eq_ok h
  rw [hledger]
  refine (Restates.portfolios l portfolios).trans ?_
  refine Restates.foldl (P := fun l m =>
    (l.position? m.entry.position.id).map Position.standing = some m.entry.position.standing)
    ?_ ?_ marked _ ?_
  · intro l m hm
    exact Restates.record hm
  · intro l next m hrest hm
    exact (hrest.standing _).trans hm
  · intro m hm
    exact map_position?_marked hmarked hstored Position.standing (fun _ _ => rfl) hm

section funding

/-- What does not depend on accumulated funding is not changed by booking it. -/
theorem map_get?_bookFunding {κ : Type} (f : Entry → κ)
    (hf : ∀ (e : Entry) total index now, f { e with position := { e.position with
      accumulatedFunding := total, fundingIndex := index, updatedAt := now } } = f e)
    (index : Decimal) (now : Instant) (l : Ledger) (total : PositionId × Amount)
    (id : PositionId) :
    ((bookFunding index now l total).entries.get? id).map f = (l.entries.get? id).map f := by
  unfold bookFunding
  cases hget : l.entries.get? total.1 with
  | none => rfl
  | some entry =>
    dsimp only
    rw [Table.get?_insert_eq]
    by_cases hid : id = total.1
    · rw [if_pos hid, hid, hget]
      exact congrArg some (hf ..)
    · rw [if_neg hid]

theorem map_get?_applyFunding {κ : Type} (f : Entry → κ)
    (hf : ∀ (e : Entry) total index now, f { e with position := { e.position with
      accumulatedFunding := total, fundingIndex := index, updatedAt := now } } = f e)
    {l next : Ledger} {payments : List (PositionId × Amount)} {index : Decimal} {now : Instant}
    (h : l.applyFunding payments index now = .ok next) (id : PositionId) :
    (next.entries.get? id).map f = (l.entries.get? id).map f := by
  unfold applyFunding at h
  simp only [bind_eq_ok, pure_eq_ok] at h
  obtain ⟨totals, -, rfl⟩ := h
  induction totals generalizing l with
  | nil => rfl
  | cons total totals ih =>
    exact (ih (l := bookFunding index now l total)).trans
      (map_get?_bookFunding f hf index now l total id)

variable {κ : Type} (f : Position → κ)
  (hf : ∀ (p : Position) total index now,
    f { p with accumulatedFunding := total, fundingIndex := index, updatedAt := now } = f p)

include hf

theorem map_position?_bookFunding (index : Decimal) (now : Instant) (l : Ledger)
    (total : PositionId × Amount) (id : PositionId) :
    ((bookFunding index now l total).position? id).map f = (l.position? id).map f := by
  unfold position?
  rw [Option.map_map, Option.map_map]
  exact map_get?_bookFunding (f ∘ Entry.position) (fun e => hf e.position) index now l total id

theorem map_position?_applyFunding {l next : Ledger} {payments : List (PositionId × Amount)}
    {index : Decimal} {now : Instant} (h : l.applyFunding payments index now = .ok next)
    (id : PositionId) : (next.position? id).map f = (l.position? id).map f := by
  unfold position?
  rw [Option.map_map, Option.map_map]
  exact map_get?_applyFunding (f ∘ Entry.position) (fun e => hf e.position) h id

end funding

theorem bookFunding_restates (index : Decimal) (now : Instant) (l : Ledger)
    (total : PositionId × Amount) : Restates l (bookFunding index now l total) := by
  refine ⟨map_position?_bookFunding Position.standing (fun _ _ _ _ => rfl) index now l total,
    ?_, ?_, ?_, ?_⟩
  all_goals
    unfold bookFunding
    cases l.entries.get? total.1 <;> rfl

theorem applyFunding_restates {l next : Ledger} {payments : List (PositionId × Amount)}
    {index : Decimal} {now : Instant} (h : l.applyFunding payments index now = .ok next) :
    Restates l next := by
  unfold applyFunding at h
  simp only [bind_eq_ok, pure_eq_ok] at h
  obtain ⟨totals, -, rfl⟩ := h
  exact Restates.foldl (P := fun _ _ => True)
    (fun l total _ => bookFunding_restates index now l total) (fun _ _ _ => trivial) totals l
    (fun _ _ => trivial)

end Ledger

end Clearing

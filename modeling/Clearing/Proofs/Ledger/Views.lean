import Clearing.Ledger.Mark
import Clearing.Ledger.Trade
import Clearing.Proofs.Table

/-!
What each write shows in each view of a ledger.

A ledger is written by four small writes: a position is recorded, the totals of a market and an
owner are settled, a position enters the indices, and a position leaves the ledger.  Each of them
shows in few of the views, and at one key only.  Whatever an operation does is put together from
these lemmas, and no later proof looks into a table.
-/

namespace Clearing

/-- What a position keeps for as long as it is open. -/
structure Position.Identity where
  id : PositionId
  market : MarketId
  owner : AccountId
  side : Side
  leverage : Leverage
  openedAt : Instant
deriving DecidableEq

/-- The part of a position that does not change. -/
def Position.identity (p : Position) : Position.Identity :=
  ⟨p.id, p.market, p.owner, p.side, p.leverage, p.openedAt⟩

/-- The side of the market that a position is on. -/
def Position.lane (p : Position) : Lane :=
  ⟨p.market, p.side⟩

namespace Position

variable {p p' : Position}

/-! ### Equal identities -/

theorem id_eq_of_identity (h : p'.identity = p.identity) : p'.id = p.id :=
  congrArg Identity.id h

theorem owner_eq_of_identity (h : p'.identity = p.identity) : p'.owner = p.owner :=
  congrArg Identity.owner h

theorem market_eq_of_identity (h : p'.identity = p.identity) : p'.market = p.market :=
  congrArg Identity.market h

theorem side_eq_of_identity (h : p'.identity = p.identity) : p'.side = p.side :=
  congrArg Identity.side h

theorem leverage_eq_of_identity (h : p'.identity = p.identity) : p'.leverage = p.leverage :=
  congrArg Identity.leverage h

theorem lane_eq_of_identity (h : p'.identity = p.identity) : p'.lane = p.lane := by
  unfold lane
  rw [market_eq_of_identity h, side_eq_of_identity h]

end Position

namespace Ledger

/-- The numbers kept for an owner, in the order of opening. -/
def idsOf (l : Ledger) (owner : AccountId) : List PositionId :=
  (l.byOwner.get? owner).getD []

/-- What is open on one side of a market. -/
def openInterestOn (l : Ledger) (lane : Lane) : Decimal :=
  (l.openInterest lane.market).onSide lane.side

theorem find_eq_ok {l : Ledger} {id : PositionId} {p : Position} :
    l.find id = .ok p ↔ l.position? id = some p := by
  unfold find
  cases l.position? id <;> simp

/-! ### Recording -/

section record

variable (l : Ledger) (e : Entry)

theorem get?_entries_record (id : PositionId) :
    (l.record e).entries.get? id = if id = e.position.id then some e else l.entries.get? id :=
  Table.get?_insert_eq ..

@[simp] theorem position?_record (id : PositionId) :
    (l.record e).position? id = if id = e.position.id then some e.position else l.position? id := by
  unfold position?
  rw [get?_entries_record]
  split <;> rfl

@[simp] theorem idsOf_record (owner : AccountId) : (l.record e).idsOf owner = l.idsOf owner := rfl

@[simp] theorem byOwner_record : (l.record e).byOwner = l.byOwner := rfl

@[simp] theorem idsIn_record (market : MarketId) : (l.record e).idsIn market = l.idsIn market := rfl

@[simp] theorem openInterest_record (market : MarketId) :
    (l.record e).openInterest market = l.openInterest market := rfl

@[simp] theorem nextId_record : (l.record e).nextId = l.nextId := rfl

end record

/-! ### Settling totals -/

section settleTotals

variable (l : Ledger) (market : MarketId) (oi : OpenInterest) (portfolio : Portfolio)

@[simp] theorem idsOf_settleTotals (owner : AccountId) :
    (l.settleTotals market oi portfolio).idsOf owner = l.idsOf owner := rfl

@[simp] theorem byOwner_settleTotals :
    (l.settleTotals market oi portfolio).byOwner = l.byOwner := rfl

@[simp] theorem idsIn_settleTotals (other : MarketId) :
    (l.settleTotals market oi portfolio).idsIn other = l.idsIn other := rfl

@[simp] theorem openInterest_settleTotals (other : MarketId) :
    (l.settleTotals market oi portfolio).openInterest other =
      if other = market then oi else l.openInterest other := by
  unfold openInterest settleTotals
  rw [Table.get?_insert_eq]
  split <;> rfl

@[simp] theorem nextId_settleTotals :
    (l.settleTotals market oi portfolio).nextId = l.nextId := rfl

end settleTotals

/-! ### Entering and leaving the indices -/

section enroll

variable (l : Ledger) (p : Position)

theorem get?_byOwner_enroll (owner : AccountId) :
    (l.enroll p).byOwner.get? owner =
      if owner = p.owner then some (l.idsOf p.owner ++ [p.id]) else l.byOwner.get? owner :=
  Table.get?_insert_eq ..

@[simp] theorem idsOf_enroll (owner : AccountId) :
    (l.enroll p).idsOf owner =
      if owner = p.owner then l.idsOf owner ++ [p.id] else l.idsOf owner := by
  unfold idsOf
  rw [get?_byOwner_enroll]
  by_cases h : owner = p.owner
  · rw [if_pos h, if_pos h, h]
    rfl
  · rw [if_neg h, if_neg h]

@[simp] theorem mem_idsIn_enroll {market : MarketId} {id : PositionId} :
    id ∈ (l.enroll p).idsIn market ↔ id = p.id ∧ market = p.market ∨ id ∈ l.idsIn market := by
  unfold idsIn enroll
  rw [Table.get?_insert_eq]
  by_cases h : market = p.market
  · subst h
    rw [if_pos rfl, Option.getD_some, KeySet.mem_keys_add]
    simp
  · rw [if_neg h]
    simp [h]

@[simp] theorem openInterest_enroll (market : MarketId) :
    (l.enroll p).openInterest market = l.openInterest market := rfl

@[simp] theorem nextId_enroll : (l.enroll p).nextId = l.nextId := rfl

end enroll

section dismiss

variable (l : Ledger) (p : Position)

theorem get?_entries_dismiss (id : PositionId) :
    (l.dismiss p).entries.get? id = if id = p.id then none else l.entries.get? id :=
  Table.get?_erase_eq ..

@[simp] theorem position?_dismiss (id : PositionId) :
    (l.dismiss p).position? id = if id = p.id then none else l.position? id := by
  unfold position?
  rw [get?_entries_dismiss]
  split <;> rfl

/-- An owner keeps the numbers that are left, and no list where none is. -/
theorem get?_withoutPosition (index : Table AccountId (List PositionId)) (owner : AccountId) :
    (withoutPosition index p).get? owner =
      if owner = p.owner then
        ((index.get? owner).map fun ids => ids.filter (· ≠ p.id)).filter (· ≠ [])
      else index.get? owner := by
  unfold withoutPosition
  by_cases h : owner = p.owner
  · subst h
    rw [if_pos rfl]
    cases hget : index.get? p.owner with
    | none => simp [hget]
    | some ids =>
      rw [Option.map_some]
      dsimp only
      cases ids.filter (· ≠ p.id) with
      | nil => exact Table.get?_erase_self _ _
      | cons id rest => exact Table.get?_insert_self _ _ _
  · rw [if_neg h]
    cases index.get? p.owner with
    | none => rfl
    | some ids =>
      dsimp only
      cases ids.filter (· ≠ p.id) with
      | nil => exact Table.get?_erase_of_ne _ h
      | cons id rest => exact Table.get?_insert_of_ne _ _ h

@[simp] theorem idsOf_dismiss (owner : AccountId) :
    (l.dismiss p).idsOf owner =
      if owner = p.owner then (l.idsOf owner).filter (· ≠ p.id) else l.idsOf owner := by
  show ((withoutPosition l.byOwner p).get? owner).getD [] = _
  rw [get?_withoutPosition]
  unfold idsOf
  split
  · cases l.byOwner.get? owner with
    | none => rfl
    | some ids =>
      by_cases h : ids.filter (· ≠ p.id) = []
      · rw [Option.map_some, Option.filter_some, if_neg (by simpa using h)]
        exact h.symm
      · rw [Option.map_some, Option.filter_some, if_pos (by simpa using h)]
        rfl
  · rfl

theorem mem_idsIn_dismiss {market : MarketId} {id : PositionId} :
    id ∈ (l.dismiss p).idsIn market ↔ id ∈ l.idsIn market ∧ (id = p.id → market ≠ p.market) := by
  unfold idsIn dismiss
  by_cases h : market = p.market
  · subst h
    cases hget : l.byMarket.get? p.market with
    | none => simp [hget, Table.mem_keys_iff]
    | some ids => simp [KeySet.mem_keys_erase, and_comm]
  · cases hget : l.byMarket.get? p.market with
    | none => simp [h]
    | some ids => simp [h, Table.get?_insert_of_ne _ _ h]

@[simp] theorem openInterest_dismiss (market : MarketId) :
    (l.dismiss p).openInterest market = l.openInterest market := rfl

@[simp] theorem nextId_dismiss : (l.dismiss p).nextId = l.nextId := rfl

end dismiss

end Ledger

end Clearing

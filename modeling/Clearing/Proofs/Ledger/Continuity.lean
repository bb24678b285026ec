import Clearing.Proofs.Ledger.Indices

/-!
What every step upholds of a position.

Sizes, collaterals and entry prices come out of sums, differences and quotients that are rounded.
None of them is rounded away.  What is left of a size was checked to be more than what goes, and
rounding keeps order; collateral is checked once it has been added up; and an average that is not a
price gives way to the entry price from before.  `Upholds` says this of one position, and
`answer_upholds` says that an operation does it to every position that was there before.
-/

namespace Clearing

open Decimal

namespace Position

/-- `p` is what may have become of `current`: still of some size, entered where it was or above
zero, and with collateral that is no less than it was or above zero. -/
structure Upholds (p current : Position) : Prop where
  size_pos : zero < current.size → zero < p.size
  entryPrice : p.entryPrice = current.entryPrice ∨ zero < p.entryPrice
  collateral : current.collateral ≤ p.collateral ∨ zero < p.collateral

variable {p mid current : Position}

theorem upholds_of_same
    (h : (p.size, p.entryPrice, p.collateral)
      = (current.size, current.entryPrice, current.collateral)) : p.Upholds current := by
  simp only [Prod.mk.injEq] at h
  obtain ⟨hsize, hentry, hcollateral⟩ := h
  exact ⟨fun hpos => hsize ▸ hpos, .inl hentry, .inl (hcollateral ▸ Decimal.le_refl _)⟩

theorem Upholds.refl (p : Position) : p.Upholds p :=
  upholds_of_same rfl

theorem Upholds.trans (h : p.Upholds mid) (h' : mid.Upholds current) : p.Upholds current where
  size_pos hpos := h.size_pos (h'.size_pos hpos)
  entryPrice := by
    rcases h.entryPrice with hsame | hpos
    · rw [hsame]
      exact h'.entryPrice
    · exact .inr hpos
  collateral := by
    rcases h.collateral with hle | hpos
    · rcases h'.collateral with hle' | hpos
      · exact .inl (Decimal.le_trans hle' hle)
      · exact .inr (Decimal.lt_of_lt_of_le hpos hle)
    · exact .inr hpos

theorem Upholds.collateral_pos (h : p.Upholds current) (hpos : zero < current.collateral) :
    zero < p.collateral := by
  rcases h.collateral with hle | habove
  · exact Decimal.lt_of_lt_of_le hpos hle
  · exact habove

/-- A change at the will of the owner, backed or eased. -/
theorem Continues.upholds {tier : MarginTier} (h : p.Continues current)
    (hmargined : p.BackedBy tier ∨ p.Eases current) : p.Upholds current where
  size_pos := h.size_pos
  entryPrice := h.entryPrice
  collateral := hmargined.symm.imp (·.collateral_le) (·.collateral_pos)

/-- A part taken by force. -/
theorem LeftOf.upholds {amount : Decimal} (h : current.LeftOf p amount) (hpos : zero < p.size) :
    p.Upholds current where
  size_pos _ := hpos
  entryPrice := .inl h.entryPrice
  collateral := by
    rw [h.collateral]
    exact .inl (Decimal.le_refl _)

end Position

namespace Ledger

/-- Every position of `next` was there in `l`, and is upheld. -/
def Upholds (l next : Ledger) : Prop :=
  ∀ id p, next.position? id = some p → ∃ current, l.position? id = some current ∧ p.Upholds current

variable {l mid next : Ledger} {id : PositionId} {p current : Position} {now : Instant}

theorem Upholds.refl (l : Ledger) : l.Upholds l :=
  fun _ p hp => ⟨p, hp, .refl p⟩

theorem Upholds.trans (h : l.Upholds mid) (h' : mid.Upholds next) : l.Upholds next := by
  intro id p hp
  obtain ⟨between, hbetween, hupholds'⟩ := h' id p hp
  obtain ⟨current, hcurrent, hupholds⟩ := h id between hbetween
  exact ⟨current, hcurrent, hupholds'.trans hupholds⟩

/-- What shows neither in sizes nor in entry prices nor in collateral upholds positions. -/
theorem upholds_of_map
    (hsame : ∀ id, (next.position? id).map (fun p => (p.size, p.entryPrice, p.collateral))
      = (l.position? id).map fun p => (p.size, p.entryPrice, p.collateral)) :
    l.Upholds next := by
  intro id p hp
  have hmap := hsame id
  rw [hp, Option.map_some, eq_comm, Option.map_eq_some_iff] at hmap
  obtain ⟨current, hcurrent, heq⟩ := hmap
  exact ⟨current, hcurrent, Position.upholds_of_same heq.symm⟩

/-! ### Steps -/

theorem Amends.upholds {mark : Price} {notice : Notice}
    (h : Amends l current p mark now notice next) (hheld : l.position? p.id = some current)
    (hp : p.Upholds current) : l.Upholds next := by
  intro id q hq
  rw [h.position?] at hq
  split at hq
  · rename_i hid
    cases hq
    exact ⟨current, hid ▸ hheld, hp⟩
  · exact ⟨q, hq, .refl q⟩

theorem Closes.upholds (h : Closes l id p now next) : l.Upholds next := by
  intro other q hq
  rw [h.position?] at hq
  split at hq
  · cases hq
  · exact ⟨q, hq, .refl q⟩

/-! ### Operations -/

theorem modify_upholds {sizeDelta : Decimal} {collateralDelta : Amount} {price : Price}
    {schedule : MarginSchedule} {posted : Posted Amount} (hstored : l.Stored)
    (h : l.modify id sizeDelta collateralDelta price schedule now = .ok posted) :
    l.Upholds posted.ledger := by
  obtain ⟨current, tier, p, notice, hheld, -, -, hcontinues, -, hmargined, -, hamends⟩ :=
    modify_terms h
  have hid := (Position.id_eq_of_identity hcontinues.identity).trans (hstored id current hheld)
  exact hamends.upholds (hid ▸ hheld) (hcontinues.upholds hmargined)

theorem forceReduce_upholds {amount : Decimal} {price : Price} {schedule : MarginSchedule}
    {posted : Posted Reduction} (hstored : l.Stored)
    (h : l.forceReduce id amount price schedule now = .ok posted) : l.Upholds posted.ledger := by
  obtain ⟨current, hheld, ⟨-, -, -, hcloses⟩ |
    ⟨-, -, -, tier, p, notice, -, hsame, hpos, -, -, hleft, hamends⟩⟩ := forceReduce_terms h
  · exact hcloses.upholds
  · have hid := (Position.id_eq_of_identity hsame).trans (hstored id current hheld)
    exact hamends.upholds (hid ▸ hheld) (hleft.upholds hpos)

theorem refresh_upholds {mark : Price} {posted : Posted Bool} (hstored : l.Stored)
    (h : l.refresh id mark now = .ok posted) : l.Upholds posted.ledger := by
  obtain ⟨p, pnl, portfolio, notice, hp, -, -, -, -, hledger⟩ := refresh_eq_ok h
  refine upholds_of_map fun k => ?_
  rw [hledger, position?_record]
  by_cases hk : k = p.id
  · rw [if_pos hk, hk, hstored.position?_id hp]
    rfl
  · rw [if_neg hk]
    rfl

theorem refreshMarket_upholds {market : MarketId} {mark : Price}
    {posted : Posted (List PositionId)} (hstored : l.Stored)
    (h : l.refreshMarket market mark now = .ok posted) : l.Upholds posted.ledger :=
  upholds_of_map (map_position?_refreshMarket hstored _ (fun _ _ => rfl) h)

theorem applyFunding_upholds {payments : List (PositionId × Amount)} {index : Decimal}
    (h : l.applyFunding payments index now = .ok next) : l.Upholds next :=
  upholds_of_map (map_position?_applyFunding _ (fun _ _ _ _ => rfl) h)

/-- A deleveraging reduces positions one after the other. -/
theorem execute_upholds {q left : DeleverageQueue} {schedule : MarginSchedule}
    {shortfall : Shortfall} {coverage : Coverage} (hindexed : l.WellIndexed)
    (h : q.execute l schedule shortfall now = .ok (coverage, left, next)) : l.Upholds next := by
  refine (DeleverageQueue.execute_invariant (P := fun mid => mid.WellIndexed ∧ l.Upholds mid)
    (fun mid _ _ _ _ _ _ hmid hforced => ?_) h ⟨hindexed, .refl l⟩).2
  obtain ⟨hindexed, hupholds⟩ := hmid
  exact ⟨hindexed.change (forceReduce_change hforced),
    hupholds.trans (forceReduce_upholds hindexed.stored hforced)⟩

/-- **What an operation upholds.**  A position after it was opened by it, at the price of the order
and with size and collateral above zero, or it was there before and is upheld. -/
theorem answer_upholds {op : Operation} {reply : Reply} (hindexed : l.WellIndexed)
    (h : l.answer op = .ok (reply, next)) (hp : next.position? id = some p) :
    (∃ order schedule now, op = .openPosition order schedule now ∧
        p.entryPrice = order.entryPrice ∧ zero < p.size ∧ zero < p.collateral) ∨
      ∃ current, l.position? id = some current ∧ p.Upholds current := by
  have hstored := hindexed.stored
  cases op with
  | openPosition order schedule now =>
    obtain ⟨posted, hx, rfl, rfl⟩ := posting_eq_ok h
    obtain ⟨tier, price, notice, -, -, hbacked, -, -, -, hopens⟩ := openPosition_terms hx
    rw [hopens.position?] at hp
    split at hp
    · cases hp
      exact .inl ⟨order, schedule, now, rfl, rfl, hopens.size_pos, hbacked.collateral_pos⟩
    · exact .inr ⟨p, hp, .refl p⟩
  | modify id sizeDelta collateralDelta price schedule now =>
    obtain ⟨posted, hx, rfl, rfl⟩ := posting_eq_ok h
    exact .inr (modify_upholds hstored hx _ p hp)
  | close id price now =>
    obtain ⟨posted, hx, rfl, rfl⟩ := posting_eq_ok h
    exact .inr ((close_eq_ok hx).2.upholds _ p hp)
  | forceReduce id amount price schedule now =>
    obtain ⟨posted, hx, rfl, rfl⟩ := posting_eq_ok h
    exact .inr (forceReduce_upholds hstored hx _ p hp)
  | refresh id mark now =>
    obtain ⟨posted, hx, rfl, rfl⟩ := posting_eq_ok h
    exact .inr (refresh_upholds hstored (refusing_eq_ok.1 hx) _ p hp)
  | refreshMarket market mark now =>
    obtain ⟨posted, hx, rfl, rfl⟩ := posting_eq_ok h
    exact .inr (refreshMarket_upholds hstored (refusing_eq_ok.1 hx) _ p hp)
  | applyFunding payments index now =>
    unfold answer at h
    simp only [bind_eq_ok, refusing_eq_ok, pure_eq_ok, Prod.mk.injEq] at h
    obtain ⟨_, hx, -, rfl⟩ := h
    exact .inr (applyFunding_upholds hx _ p hp)
  | deleverage queue schedule shortfall now =>
    obtain ⟨coverage, left, -, hx⟩ := deleverage_eq_ok h
    exact .inr (execute_upholds hindexed hx _ p hp)

/-! ### Runs -/

/-- **What every position of a run has.**  It comes with every order that the run is allowed to
name, and it stays with what is upheld. -/
theorem run_positions {P : Position → Prop} {Q : Operation → Prop}
    (hopened : ∀ p order schedule now, Q (.openPosition order schedule now) →
      p.entryPrice = order.entryPrice → zero < p.size → zero < p.collateral → P p)
    (hupheld : ∀ p current, P current → p.Upholds current → P p)
    {ops : List Operation} {replies : List (Except Refusal Reply)} {last : Ledger}
    (hl : ∀ id p, l.position? id = some p → P p) (hindexed : l.WellIndexed)
    (hallowed : ∀ op ∈ ops, Q op) (hrun : l.run ops = .ok (replies, last)) :
    ∀ id p, last.position? id = some p → P p := by
  have hboth : last.WellIndexed ∧ ∀ id p, last.position? id = some p → P p := by
    refine inTurn_invariant (P := fun l => l.WellIndexed ∧ ∀ id p, l.position? id = some p → P p)
      ?_ ⟨hindexed, hl⟩ hrun
    rintro l ⟨hindexed, hl⟩ op hop reply next hperform
    refine ⟨hindexed.perform hperform, ?_⟩
    rcases orStay_eq_ok.1 hperform with ⟨r, -, hanswer⟩ | ⟨_, -, -, rfl⟩
    · intro id p hp
      rcases answer_upholds hindexed hanswer hp with
        ⟨order, schedule, now, rfl, hentry, hsize, hcollateral⟩ | ⟨current, hcurrent, hupholds⟩
      · exact hopened p order schedule now (hallowed _ hop) hentry hsize hcollateral
      · exact hupheld p current (hl id current hcurrent) hupholds
    · exact hl
  exact hboth.2

end Ledger

end Clearing

import Clearing.Proofs.Funding.Settlement
import Clearing.Proofs.Ledger.Runs
import Mathlib.Data.List.Sort

/-!
The indices of a ledger and the positions they index.

A ledger writes its two indices and its entries separately, and every lookup passes over a number
that leads nowhere, so a mismatch would lose positions without an error.  `WellIndexed` says that
there is none.  Each step keeps it, so every run does, and from it alone follow the equality of
all the views and the absence of dangling numbers.

Numbers are handed out in ascending order and never twice.  That is why what a position keeps can
be compared over a whole run: an open number stands for one position from first to last.
-/

namespace Clearing

namespace Ledger

/-- The indices hold the numbers of the open positions, each in its place and no others. -/
structure WellIndexed (l : Ledger) : Prop where
  stored : l.Stored
  owned : ∀ owner id, id ∈ l.idsOf owner ↔ ∃ p, l.position? id = some p ∧ p.owner = owner
  listed : ∀ market id, id ∈ l.idsIn market ↔ ∃ p, l.position? id = some p ∧ p.market = market
  ascending : ∀ owner, (l.idsOf owner).Pairwise fun a b => a.val < b.val
  /-- An owner without positions is not kept. -/
  inhabited : ∀ owner, l.byOwner.get? owner ≠ some []
  numbered : ∀ id p, l.position? id = some p → id.val < l.nextNumber

/-- What the indices of `next` speak about is what those of `l` speak about. -/
structure SameIndices (l next : Ledger) : Prop where
  identity : ∀ id,
    (next.position? id).map Position.identity = (l.position? id).map Position.identity
  byOwner : next.byOwner = l.byOwner
  byMarket : next.byMarket = l.byMarket
  nextId : next.nextId = l.nextId

theorem SameIndices.exists_held {l next : Ledger} (h : SameIndices l next) {id : PositionId}
    {p' : Position} (hp : next.position? id = some p') :
    ∃ p, l.position? id = some p ∧ p'.identity = p.identity := by
  have hid := h.identity id
  rw [hp, Option.map_some] at hid
  obtain ⟨p, hp, hsame⟩ := Option.map_eq_some_iff.1 hid.symm
  exact ⟨p, hp, hsame.symm⟩

theorem SameIndices.symm {l next : Ledger} (h : SameIndices l next) : SameIndices next l :=
  ⟨fun id => (h.identity id).symm, h.byOwner.symm, h.byMarket.symm, h.nextId.symm⟩

/-- Whatever an identity tells is told by the positions of both. -/
theorem SameIndices.exists_iff {l next : Ledger} (h : SameIndices l next) {κ : Type}
    (f : Position.Identity → κ) (id : PositionId) (k : κ) :
    (∃ p, next.position? id = some p ∧ f p.identity = k) ↔
      ∃ p, l.position? id = some p ∧ f p.identity = k := by
  constructor
  · rintro ⟨p', hp', rfl⟩
    obtain ⟨p, hp, hid⟩ := h.exists_held hp'
    exact ⟨p, hp, by rw [hid]⟩
  · rintro ⟨p, hp, rfl⟩
    obtain ⟨p', hp', hid⟩ := h.symm.exists_held hp
    exact ⟨p', hp', by rw [hid]⟩

theorem Restates.sameIndices {l next : Ledger} (h : Restates l next) : SameIndices l next where
  identity id := by
    have hstanding := congrArg (Option.map Prod.fst) (h.standing id)
    rwa [Option.map_map, Option.map_map] at hstanding
  byOwner := h.byOwner
  byMarket := h.byMarket
  nextId := h.nextId

theorem Amends.sameIndices {l next : Ledger} {id : PositionId} {current p : Position}
    {mark : Price} {now : Instant} {notice : Notice} (hstored : l.Stored)
    (held : l.position? id = some current) (same : p.identity = current.identity)
    (h : Amends l current p mark now notice next) : SameIndices l next where
  identity other := by
    rw [h.position?]
    by_cases hother : other = p.id
    · rw [if_pos hother, hother, Position.id_eq_of_identity same, hstored.position?_id held,
        Option.map_some, Option.map_some, same]
    · rw [if_neg hother]
  byOwner := h.byOwner
  byMarket := h.byMarket
  nextId := h.nextId

namespace WellIndexed

variable {l next : Ledger}

theorem startingAt (first : Nat) : (Ledger.startingAt first).WellIndexed where
  stored _ _ h := by cases h
  owned owner id := ⟨nofun, fun ⟨_, h, _⟩ => by cases h⟩
  listed market id := ⟨nofun, fun ⟨_, h, _⟩ => by cases h⟩
  ascending owner := .nil
  inhabited owner := nofun
  numbered _ _ h := by cases h

/-- What a refresh marks is open in the market that is refreshed. -/
theorem exists_of_marked (h : l.WellIndexed) {market : MarketId} {mark : Price} {now : Instant}
    {marked : List Marked} (hmarked : l.Marking mark now (l.idsIn market) marked) {m : Marked}
    (hm : m ∈ marked) :
    ∃ p, l.position? p.id = some p ∧ p.market = market ∧ markAt p mark now = .ok m := by
  obtain ⟨id, hid, p, hp, hmark⟩ := exists_of_forall₂ hmarked hm
  obtain ⟨q, hq, hmarket⟩ := (h.listed market id).1 hid
  obtain rfl : q = p := Option.some.inj (hq.symm.trans hp)
  exact ⟨q, h.stored.position?_id hp, hmarket, hmark⟩

/-! ### What one step keeps -/

theorem of_sameIndices (h : l.WellIndexed) (hsame : SameIndices l next) : next.WellIndexed := by
  refine ⟨?_, ?_, ?_, ?_, ?_, ?_⟩
  · intro id p' hp'
    obtain ⟨p, hp, hid⟩ := hsame.exists_held hp'
    rw [Position.id_eq_of_identity hid, h.stored id p hp]
  · intro owner id
    unfold idsOf
    rw [hsame.byOwner]
    exact (h.owned owner id).trans (hsame.exists_iff (·.owner) id owner).symm
  · intro market id
    unfold idsIn
    rw [hsame.byMarket]
    exact (h.listed market id).trans (hsame.exists_iff (·.market) id market).symm
  · intro owner
    unfold idsOf
    rw [hsame.byOwner]
    exact h.ascending owner
  · rw [hsame.byOwner]
    exact h.inhabited
  · intro id p' hp'
    obtain ⟨p, hp, -⟩ := hsame.exists_held hp'
    unfold nextNumber
    rw [hsame.nextId]
    exact h.numbered id p hp

section opens

variable {p : Position} {now : Instant} {notice : Notice}

theorem position?_opened (h : l.WellIndexed) (hopens : Opens l p now notice next) :
    l.position? p.id = none := by
  rw [hopens.number]
  cases hp : l.position? ⟨l.nextNumber⟩ with
  | none => rfl
  | some q => exact absurd (h.numbered _ q hp) (Nat.lt_irrefl _)

theorem exists_opens_iff (h : l.WellIndexed) (hopens : Opens l p now notice next) {κ : Type}
    (f : Position → κ) (id : PositionId) (k : κ) :
    (∃ q, next.position? id = some q ∧ f q = k) ↔
      id = p.id ∧ k = f p ∨ ∃ q, l.position? id = some q ∧ f q = k := by
  rw [hopens.position?]
  by_cases hid : id = p.id
  · subst hid
    simp [h.position?_opened hopens, eq_comm]
  · simp [hid]

theorem nextNumber_opens (hopens : Opens l p now notice next) :
    next.nextNumber = l.nextNumber + 1 := by
  have hnumber : p.id.val = l.nextNumber := congrArg PositionId.val hopens.number
  unfold nextNumber at hnumber ⊢
  rw [hopens.nextId, hnumber]
  exact Nat.max_eq_left (Nat.succ_pos _)

theorem opens (h : l.WellIndexed) (hopens : Opens l p now notice next) : next.WellIndexed := by
  have hnumber : p.id.val = l.nextNumber := congrArg PositionId.val hopens.number
  refine ⟨?_, ?_, ?_, ?_, ?_, ?_⟩
  · intro id q hq
    rw [hopens.position?] at hq
    split at hq
    · rename_i hid
      cases hq
      exact hid.symm
    · exact h.stored id q hq
  · intro owner id
    rw [hopens.mem_idsOf, h.exists_opens_iff hopens, h.owned]
  · intro market id
    rw [hopens.mem_idsIn, h.exists_opens_iff hopens, h.listed]
  · intro owner
    rw [hopens.idsOf]
    split
    · refine List.pairwise_append.2 ⟨h.ascending owner, List.pairwise_singleton .., ?_⟩
      intro a ha b hb
      obtain ⟨q, hq, -⟩ := (h.owned owner a).1 ha
      rw [List.mem_singleton.1 hb, hnumber]
      exact h.numbered a q hq
    · exact h.ascending owner
  · intro owner
    rw [hopens.get?_byOwner]
    split
    · simp
    · exact h.inhabited owner
  · intro id q hq
    rw [nextNumber_opens hopens]
    rw [hopens.position?] at hq
    split at hq
    · rename_i hid
      rw [hid, hnumber]
      exact Nat.lt_succ_self _
    · exact Nat.lt_succ_of_lt (h.numbered id q hq)

end opens

section closes

variable {id : PositionId} {p : Position} {now : Instant}

theorem exists_closes_iff (hcloses : Closes l id p now next) {κ : Type} (f : Position → κ)
    (other : PositionId) (k : κ) :
    (∃ q, next.position? other = some q ∧ f q = k) ↔
      (∃ q, l.position? other = some q ∧ f q = k) ∧ other ≠ p.id := by
  rw [hcloses.position?]
  by_cases hother : other = p.id <;> simp [hother]

theorem closes (h : l.WellIndexed) (hcloses : Closes l id p now next) : next.WellIndexed := by
  have hheld : l.position? p.id = some p := h.stored.position?_id hcloses.held
  refine ⟨?_, ?_, ?_, ?_, ?_, ?_⟩
  · intro other q hq
    rw [hcloses.position?] at hq
    split at hq
    · cases hq
    · exact h.stored other q hq
  · intro owner other
    rw [hcloses.mem_idsOf, exists_closes_iff hcloses, h.owned]
    refine and_congr_right fun ⟨q, hq, howner⟩ => ⟨fun hne hother => ?_, fun hne hother => ?_⟩
    · rw [hother, hheld] at hq
      cases hq
      exact hne hother howner.symm
    · exact absurd hother hne
  · intro market other
    rw [hcloses.mem_idsIn, exists_closes_iff hcloses, h.listed]
    refine and_congr_right fun ⟨q, hq, hmarket⟩ => ⟨fun hne hother => ?_, fun hne hother => ?_⟩
    · rw [hother, hheld] at hq
      cases hq
      exact hne hother hmarket.symm
    · exact absurd hother hne
  · intro owner
    rw [hcloses.idsOf]
    split
    · exact (h.ascending owner).filter _
    · exact h.ascending owner
  · intro owner
    rw [hcloses.get?_byOwner]
    split
    · intro hempty
      simpa using (Option.filter_eq_some_iff.1 hempty).2
    · exact h.inhabited owner
  · intro other q hq
    unfold nextNumber
    rw [hcloses.nextId]
    rw [hcloses.position?] at hq
    split at hq
    · cases hq
    · exact h.numbered other q hq

end closes

theorem change (h : l.WellIndexed) (hchange : Change l next) : next.WellIndexed := by
  cases hchange with
  | amended held same _ amends => exact h.of_sameIndices (amends.sameIndices h.stored held same)
  | closed closes => exact h.closes closes
  | restated restates => exact h.of_sameIndices restates.sameIndices

theorem perform {op : Operation} {reply : Except Refusal Reply} (h : l.WellIndexed)
    (hperform : l.perform op = .ok (reply, next)) : next.WellIndexed :=
  perform_invariant stored opens change h hperform

/-- **Every run keeps the indices in step with the positions.** -/
theorem run {ops : List Operation} {replies : List (Except Refusal Reply)} (h : l.WellIndexed)
    (hrun : l.run ops = .ok (replies, next)) : next.WellIndexed :=
  run_invariant stored opens change h hrun

/-! ### What follows for the views -/

/-- A number occurs once under the owner of the position it stands for, and under no other. -/
theorem count_idsOf (h : l.WellIndexed) (owner : AccountId) (id : PositionId) :
    (l.idsOf owner).count id = if (l.position? id).map (·.owner) = some owner then 1 else 0 := by
  have hnodup : (l.idsOf owner).Nodup := (h.ascending owner).imp fun hlt heq => by
    rw [heq] at hlt
    exact Nat.lt_irrefl _ hlt
  simp only [hnodup.count, h.owned, Option.map_eq_some_iff]

theorem count_idsIn (h : l.WellIndexed) (market : MarketId) (id : PositionId) :
    (l.idsIn market).count id = if (l.position? id).map (·.market) = some market then 1 else 0 := by
  have hnodup : (l.idsIn market).Nodup := Table.keys_nodup _
  simp only [hnodup.count, h.listed, Option.map_eq_some_iff]

end WellIndexed

/-- The open positions, by ascending number. -/
def positions (l : Ledger) : List Position :=
  l.entries.values.map (·.position)

theorem mem_positions_iff {l : Ledger} {p : Position} :
    p ∈ l.positions ↔ ∃ id, l.position? id = some p := by
  unfold positions position?
  simp only [List.mem_map, Table.mem_values_iff, Option.map_eq_some_iff]
  constructor
  · rintro ⟨e, ⟨id, hid⟩, rfl⟩
    exact ⟨id, e, hid, rfl⟩
  · rintro ⟨id, e, hid, rfl⟩
    exact ⟨e, ⟨id, hid⟩, rfl⟩

namespace WellIndexed

variable {l next : Ledger}

theorem mem_positions (h : l.WellIndexed) {p : Position} :
    p ∈ l.positions ↔ l.position? p.id = some p := by
  rw [mem_positions_iff]
  constructor
  · rintro ⟨id, hp⟩
    exact h.stored.position?_id hp
  · intro hp
    exact ⟨p.id, hp⟩

theorem positions_ascending (h : l.WellIndexed) :
    l.positions.Pairwise fun p q => p.id.val < q.id.val := by
  have hid : ∀ e ∈ l.entries.entries, e.2.position.id = e.1 := by
    intro e he
    refine h.stored e.1 e.2.position ?_
    unfold position?
    rw [Table.mem_entries_iff.1 he, Option.map_some]
  unfold positions Table.values
  rw [List.map_map, List.pairwise_map]
  refine l.entries.ascending.imp_of_mem fun {a b} ha hb hlt => ?_
  show a.2.position.id.val < b.2.position.id.val
  rw [hid a ha, hid b hb]
  exact hlt

/-- Positions that ascend by their numbers are determined by which ones they are. -/
theorem eq_of_ascending {ps qs : List Position} (hp : ps.Pairwise fun p q => p.id.val < q.id.val)
    (hq : qs.Pairwise fun p q => p.id.val < q.id.val) (h : ∀ p, p ∈ ps ↔ p ∈ qs) : ps = qs := by
  have hirrefl : Std.Irrefl fun p q : Position => p.id.val < q.id.val :=
    ⟨fun _ => Nat.lt_irrefl _⟩
  have hantisymm : Std.Antisymm fun p q : Position => p.id.val < q.id.val :=
    ⟨fun _ _ hpq hqp => absurd hqp (Nat.lt_asymm hpq)⟩
  exact hp.eq_of_mem_iff hq h

/-- Numbers that ascend and stand for the positions with a property lead to these positions. -/
theorem filterMap_eq_filter (h : l.WellIndexed) {ids : List PositionId}
    (hids : ids.Pairwise fun a b => a.val < b.val) {P : Position → Prop} [DecidablePred P]
    (hmem : ∀ id, id ∈ ids ↔ ∃ p, l.position? id = some p ∧ P p) :
    ids.filterMap l.position? = l.positions.filter (P ·) := by
  refine eq_of_ascending ?_ (h.positions_ascending.filter _) fun p => ?_
  · rw [List.pairwise_filterMap]
    refine hids.imp fun {a b} hlt p hp q hq => ?_
    rwa [h.stored a p hp, h.stored b q hq]
  · rw [List.mem_filterMap, List.mem_filter, h.mem_positions, decide_eq_true_eq]
    constructor
    · rintro ⟨id, hid, hp⟩
      obtain ⟨q, hq, hprop⟩ := (hmem id).1 hid
      rw [hp, Option.some.injEq] at hq
      exact ⟨h.stored.position?_id hp, hq ▸ hprop⟩
    · rintro ⟨hp, hprop⟩
      exact ⟨p.id, (hmem p.id).2 ⟨p, hp, hprop⟩, hp⟩

theorem positionsOf_eq_filter (h : l.WellIndexed) (owner : AccountId) :
    l.positionsOf owner = l.positions.filter (·.owner = owner) :=
  h.filterMap_eq_filter (h.ascending owner) (h.owned owner)

theorem positionsIn_eq_filter (h : l.WellIndexed) (market : MarketId) :
    l.positionsIn market = l.positions.filter (·.market = market) :=
  h.filterMap_eq_filter (Table.keys_ascending _) (h.listed market)

theorem idsIn_eq_map (h : l.WellIndexed) (market : MarketId) :
    l.idsIn market = (l.positionsIn market).map (·.id) := by
  have hheld : ∀ id ∈ l.idsIn market, ∃ p, l.position? id = some p ∧ p.id = id := by
    intro id hid
    obtain ⟨p, hp, -⟩ := (h.listed market id).1 hid
    exact ⟨p, hp, h.stored id p hp⟩
  unfold positionsIn
  generalize l.idsIn market = ids at hheld ⊢
  induction ids with
  | nil => rfl
  | cons id ids ih =>
    obtain ⟨p, hp, hid⟩ := hheld id (List.mem_cons_self ..)
    rw [List.filterMap_cons_some hp, List.map_cons, hid,
      ← ih fun id hid => hheld id (List.mem_cons_of_mem _ hid)]

theorem size_eq_length (l : Ledger) : l.size = l.positions.length := by
  unfold positions Table.values
  rw [List.length_map, List.length_map]
  rfl

/-! ### No dangling number -/

/-- Marking a market finds every position it looks for. -/
theorem refreshMarket_ne_notFound (h : l.WellIndexed) (market : MarketId) (mark : Price)
    (now : Instant) (id : PositionId) :
    l.refreshMarket market mark now ≠ .error (.notFound id) := by
  intro herror
  unfold refreshMarket at herror
  rcases bind_eq_error.1 herror with herror | ⟨marked, -, herror⟩
  · obtain ⟨other, hother, herror⟩ := mapM_eq_error herror
    obtain ⟨p, hp, -⟩ := (h.listed market other).1 hother
    rw [find_eq_ok.2 hp] at herror
    obtain ⟨_, -, hcause⟩ := mapError_eq_error.1 herror
    cases hcause
  · rcases bind_eq_error.1 herror with herror | ⟨portfolios, -, herror⟩
    · obtain ⟨owner, -, herror⟩ := mapM_eq_error herror
      obtain ⟨_, -, hcause⟩ := mapError_eq_error.1 herror
      cases hcause
    · cases herror

/-- Settling funding pays to open positions only, and so finds each of them. -/
theorem settle_ne_notFound (h : l.WellIndexed) (book : FundingBook) (market : MarketId)
    (now : Instant) (id : PositionId) :
    book.settle market l now ≠ .error (.refused (.booking (.notFound id))) := by
  intro herror
  obtain ⟨rate, periods, plan, index, hplan, hbooked⟩ := FundingBook.settle_eq_booking herror
  unfold applyFunding at hbooked
  rcases bind_eq_error.1 hbooked with hbooked | ⟨totals, -, hbooked⟩
  · obtain ⟨payment, hpayment, hbooked⟩ := mapM_eq_error hbooked
    obtain ⟨paid, hpaid, rfl⟩ := List.mem_map.1 hpayment
    obtain ⟨p, hp, hfor, -⟩ := FundingPlan.exists_of_mem_payments hplan hpaid
    rw [h.positionsIn_eq_filter] at hp
    have hheld := h.mem_positions.1 (List.mem_filter.1 hp).1
    unfold accumulated at hbooked
    rw [hfor, find_eq_ok.2 hheld] at hbooked
    rcases bind_eq_error.1 hbooked with hbooked | ⟨q, -, hbooked⟩
    · cases hbooked
    · rcases bind_eq_error.1 hbooked with hbooked | ⟨total, -, hbooked⟩
      · obtain ⟨_, -, hcause⟩ := mapError_eq_error.1 hbooked
        cases hcause
      · cases hbooked
  · cases hbooked

end WellIndexed

end Ledger

end Clearing

import Clearing.Proofs.Ledger.History
import Clearing.Proofs.Position.Rollup

/-!
Portfolios are never stale.

A portfolio is kept, not worked out when it is asked for.  Each operation rebuilds those it
concerns from positions that are not written yet: with one put behind the others, with one or many
put in place of what is kept, or with one left out.  `positionsOf_opens`, `positionsOf_written`,
`positionsOf_closes` and `positionsOf_records` say that the ledger it writes holds these very
positions, in this order.  An operation that rebuilds nothing changes no stake.

So each step leaves an owner's portfolio and stakes alone or rebuilds one from the other
(`Renews`), and with that `Rolled` holds in every ledger of a run.  Main statement:
`run_portfolios`.
-/

namespace Clearing

open Decimal

namespace Ledger

variable {l next : Ledger}

/-! ### The positions of an owner after a write -/

theorem WellIndexed.mem_positionsOf (h : l.WellIndexed) {owner : AccountId} {p : Position} :
    p ∈ l.positionsOf owner ↔ l.position? p.id = some p ∧ p.owner = owner := by
  rw [h.positionsOf_eq_filter, List.mem_filter, h.mem_positions, decide_eq_true_eq]

/-- Where every number of an owner leads to a position, a change of these positions changes the
list alike. -/
theorem positionsOf_eq_map {owner : AccountId} (hindexed : l.WellIndexed)
    (hids : next.idsOf owner = l.idsOf owner) {f : Position → Position}
    (hf : ∀ p, l.position? p.id = some p → p.owner = owner → next.position? p.id = some (f p)) :
    next.positionsOf owner = (l.positionsOf owner).map f := by
  have hheld : ∀ id ∈ l.idsOf owner, ∃ p, l.position? id = some p ∧
      next.position? id = some (f p) := by
    intro id hid
    obtain ⟨p, hp, howner⟩ := (hindexed.owned owner id).1 hid
    have hnext := hf p (hindexed.stored.position?_id hp) howner
    rw [hindexed.stored id p hp] at hnext
    exact ⟨p, hp, hnext⟩
  show (next.idsOf owner).filterMap next.position? = ((l.idsOf owner).filterMap l.position?).map f
  rw [hids]
  generalize l.idsOf owner = ids at hheld
  induction ids with
  | nil => rfl
  | cons id ids ih =>
    obtain ⟨p, hp, hnext⟩ := hheld id (List.mem_cons_self ..)
    rw [List.filterMap_cons_some hp, List.filterMap_cons_some hnext, List.map_cons,
      ih fun id hid => hheld id (List.mem_cons_of_mem _ hid)]

theorem positionsOf_opens {p : Position} {now : Instant} {notice : Notice}
    (hindexed : l.WellIndexed) (h : Opens l p now notice next) (owner : AccountId) :
    next.positionsOf owner =
      if owner = p.owner then l.positionsOf p.owner ++ [p] else l.positionsOf owner := by
  have hold : (l.idsOf owner).filterMap next.position? = l.positionsOf owner := by
    refine List.filterMap_congr fun id hid => ?_
    rw [h.position?, if_neg]
    intro heq
    -- The number is a new one, so it was under no owner before.
    obtain ⟨q, hq, -⟩ := (hindexed.owned owner id).1 hid
    rw [heq, hindexed.position?_opened h] at hq
    cases hq
  show (next.idsOf owner).filterMap next.position? = _
  rw [h.idsOf]
  by_cases howner : owner = p.owner
  · have hself : next.position? p.id = some p := by rw [h.position?, if_pos rfl]
    rw [if_pos howner, if_pos howner, List.filterMap_append, hold, howner,
      List.filterMap_cons_some hself, List.filterMap_nil]
  · rw [if_neg howner, if_neg howner, hold]

/-- A changed position takes the place of the one that is kept, and so with its owner alone. -/
theorem positionsOf_written {id : PositionId} {current p : Position} (hindexed : l.WellIndexed)
    (held : l.position? id = some current) (same : p.identity = current.identity)
    (hids : next.byOwner = l.byOwner)
    (hwritten : ∀ other, next.position? other = if other = p.id then some p else l.position? other)
    (owner : AccountId) :
    next.positionsOf owner =
      if owner = p.owner then l.positionsWith p else l.positionsOf owner := by
  have hmap : next.positionsOf owner
      = (l.positionsOf owner).map fun q => if q.id = p.id then p else q := by
    refine positionsOf_eq_map hindexed (by unfold idsOf; rw [hids]) fun q hq _ => ?_
    rw [hwritten]
    by_cases hid : q.id = p.id
    · rw [if_pos hid, if_pos hid]
    · rw [if_neg hid, if_neg hid, hq]
  rw [hmap]
  by_cases howner : owner = p.owner
  · rw [if_pos howner, howner]
    rfl
  · rw [if_neg howner]
    refine (List.map_congr_left fun q hq => if_neg ?_).trans (List.map_id _)
    intro hid
    obtain ⟨hheld, hof⟩ := hindexed.mem_positionsOf.1 hq
    rw [hid, Position.id_eq_of_identity same, hindexed.stored id current held, held] at hheld
    cases hheld
    exact howner (hof.symm.trans (Position.owner_eq_of_identity same).symm)

theorem positionsOf_closes {id : PositionId} {p : Position} {now : Instant}
    (hindexed : l.WellIndexed) (h : Closes l id p now next) (owner : AccountId) :
    next.positionsOf owner =
      if owner = p.owner then (l.positionsOf p.owner).filter (·.id ≠ id)
      else l.positionsOf owner := by
  have hid := hindexed.stored id p h.held
  have hnext := hindexed.closes h
  have hascending : (l.positionsOf owner).Pairwise fun p q => p.id.val < q.id.val := by
    rw [hindexed.positionsOf_eq_filter]
    exact hindexed.positions_ascending.filter _
  have hleft : next.positionsOf owner = (l.positionsOf owner).filter (·.id ≠ id) := by
    refine WellIndexed.eq_of_ascending ?_ (hascending.filter _) fun q => ?_
    · rw [hnext.positionsOf_eq_filter]
      exact hnext.positions_ascending.filter _
    · rw [hnext.mem_positionsOf, List.mem_filter, hindexed.mem_positionsOf, h.position?, hid,
        decide_eq_true_eq]
      by_cases heq : q.id = id
      · simp [heq]
      · simp [heq]
  rw [hleft]
  by_cases howner : owner = p.owner
  · rw [if_pos howner, howner]
  · rw [if_neg howner]
    refine List.filter_eq_self.2 fun q hq => decide_eq_true ?_
    intro heq
    obtain ⟨hheld, hof⟩ := hindexed.mem_positionsOf.1 hq
    rw [heq, h.held] at hheld
    cases hheld
    exact howner hof.symm

/-! ### Portfolios after a write -/

/-- Whether an owner has a position. -/
def Holds (l : Ledger) (owner : AccountId) : Prop :=
  ∃ id p, l.position? id = some p ∧ p.owner = owner

/-- A step leaves what an owner has at stake and the portfolio alone, or it writes the portfolio of
what the owner then holds. -/
inductive Renews (l next : Ledger) (owner : AccountId) : Prop
  | left (portfolio : next.portfolio? owner = l.portfolio? owner)
      (stakes : (next.positionsOf owner).map Position.stake
        = (l.positionsOf owner).map Position.stake)
  | rebuilt (p : Portfolio) (now : Instant) (holds : l.Holds owner ∨ next.Holds owner)
      (portfolio : next.portfolio? owner = some p)
      (rolled : Portfolio.ofPositions owner (next.positionsOf owner) now = .ok p)

/-- Where a portfolio is written for an owner, what others have is left as it was. -/
theorem Renews.of_insert {owner : AccountId} {p : Portfolio} {now : Instant}
    {positions : List Position} (hholds : l.Holds owner ∨ next.Holds owner)
    (hportfolios : next.portfolios = l.portfolios.insert p.owner p)
    (hrolled : Portfolio.ofPositions owner positions now = .ok p)
    (hpositions : ∀ other, next.positionsOf other =
      if other = owner then positions else l.positionsOf other) (other : AccountId) :
    Renews l next other := by
  have howner := Portfolio.owner_of_ofPositions hrolled
  have hget : next.portfolio? other = if other = owner then some p else l.portfolio? other := by
    unfold portfolio?
    rw [hportfolios, Table.get?_insert_eq, howner]
  by_cases hother : other = owner
  · refine .rebuilt p now (hother ▸ hholds) ?_ ?_
    · rw [hget, if_pos hother]
    · rw [hpositions, if_pos hother, hother]
      exact hrolled
  · refine .left ?_ ?_
    · rw [hget, if_neg hother]
    · rw [hpositions, if_neg hother]

theorem Opens.renews {p : Position} {now : Instant} {notice : Notice} (hindexed : l.WellIndexed)
    (h : Opens l p now notice next) (owner : AccountId) : Renews l next owner := by
  obtain ⟨oi, portfolio, -, hportfolio, hnext⟩ := h.posted
  have hself : next.position? p.id = some p := by rw [h.position?, if_pos rfl]
  exact .of_insert (.inr ⟨p.id, p, hself, rfl⟩) (by rw [hnext]; rfl) hportfolio
    (positionsOf_opens hindexed h) owner

theorem Amends.renews {id : PositionId} {current p : Position} {mark : Price} {now : Instant}
    {notice : Notice} (hindexed : l.WellIndexed) (held : l.position? id = some current)
    (same : p.identity = current.identity) (h : Amends l current p mark now notice next)
    (owner : AccountId) : Renews l next owner := by
  obtain ⟨delta, oi, portfolio, -, -, hportfolio, hnext⟩ := h.posted
  exact .of_insert (.inl ⟨id, current, held, (Position.owner_eq_of_identity same).symm⟩)
    (by rw [hnext]; rfl) hportfolio
    (positionsOf_written hindexed held same h.byOwner h.position?) owner

theorem Closes.renews {id : PositionId} {p : Position} {now : Instant} (hindexed : l.WellIndexed)
    (h : Closes l id p now next) (owner : AccountId) : Renews l next owner := by
  obtain ⟨oi, portfolio, -, hportfolio, hnext⟩ := h.posted
  exact .of_insert (.inl ⟨id, p, h.held, rfl⟩) (by rw [hnext]; rfl) hportfolio
    (positionsOf_closes hindexed h) owner

/-! ### Marking and funding -/

theorem refresh_renews (hindexed : l.WellIndexed) {id : PositionId} {mark : Price} {now : Instant}
    {posted : Posted Bool} (h : l.refresh id mark now = .ok posted) (owner : AccountId) :
    Renews l posted.ledger owner := by
  obtain ⟨p, pnl, portfolio, notice, hp, -, hportfolio, -, -, hledger⟩ := refresh_eq_ok h
  have howner := Portfolio.owner_of_ofPositions hportfolio
  have hportfolios : posted.ledger.portfolios = l.portfolios.insert portfolio.owner portfolio := by
    rw [hledger, howner]
    rfl
  have hfound : ∀ other, posted.ledger.position? other =
      if other = p.id then some { p with unrealizedPnl := pnl } else l.position? other := by
    intro other
    rw [hledger]
    exact position?_record _ _ other
  have hwritten := positionsOf_written hindexed hp (p := { p with unrealizedPnl := pnl }) rfl
    (by rw [hledger]; rfl) hfound
  exact .of_insert (.inl ⟨id, p, hp, rfl⟩) hportfolios hportfolio hwritten owner

section marked

variable {marked : List Marked}

/-- Writing marked positions touches nothing but the entries. -/
theorem records_eq (marked : List Marked) (l : Ledger) :
    marked.foldl (fun l m => l.record m.entry) l =
      { l with entries := (marked.foldl (fun l m => l.record m.entry) l).entries } := by
  induction marked generalizing l with
  | nil => rfl
  | cons m rest ih =>
    rw [List.foldl_cons, ih]
    rfl

/-- A position that was marked is found as it was marked. -/
theorem position?_records (hnodup : (marked.map (·.entry.position.id)).Nodup) (l : Ledger)
    (id : PositionId) :
    (marked.foldl (fun l m => l.record m.entry) l).position? id =
      match marked.find? (·.entry.position.id = id) with
      | some m => some m.entry.position
      | none => l.position? id := by
  unfold position?
  rw [get?_entries_records hnodup]
  cases marked.find? (·.entry.position.id = id) <;> rfl

/-- Portfolios that are written one after the other, each for its owner. -/
theorem get?_inserts {G : AccountId → Except ArithmeticError Portfolio} {owners : List AccountId}
    {portfolios : List Portfolio}
    (h : List.Forall₂ (fun owner p => G owner = .ok p) owners portfolios)
    (howner : ∀ owner p, G owner = .ok p → p.owner = owner) (t : Table AccountId Portfolio)
    (owner : AccountId) :
    owner ∈ owners ∧ (∃ p, G owner = .ok p ∧
        (portfolios.foldl (fun t p => t.insert p.owner p) t).get? owner = some p) ∨
      owner ∉ owners ∧
        (portfolios.foldl (fun t p => t.insert p.owner p) t).get? owner = t.get? owner := by
  induction h generalizing t with
  | nil => exact .inr ⟨List.not_mem_nil, rfl⟩
  | @cons first p owners portfolios hp _ ih =>
    rw [List.foldl_cons, List.mem_cons]
    have hfirst := howner first p hp
    rcases ih (t.insert p.owner p) with ⟨hmem, hget⟩ | ⟨hmem, hget⟩
    · exact .inl ⟨.inr hmem, hget⟩
    · rw [hget, Table.get?_insert_eq, hfirst]
      by_cases heq : owner = first
      · rw [if_pos heq]
        exact .inl ⟨.inl heq, p, heq ▸ hp, rfl⟩
      · rw [if_neg heq]
        exact .inr ⟨not_or.2 ⟨heq, hmem⟩, rfl⟩

end marked

/-- What a refresh of a market writes, positions and the portfolios of their owners, and what it
tells. -/
theorem refreshMarket_writes {market : MarketId} {mark : Price} {now : Instant}
    {posted : Posted (List PositionId)} (h : l.refreshMarket market mark now = .ok posted) :
    ∃ marked portfolios, l.Marking mark now (l.idsIn market) marked ∧
      List.Forall₂ (fun owner p =>
          Portfolio.ofPositions owner (l.positionsMarked marked owner) now = .ok p)
        (KeySet.ofList (marked.map (·.entry.position.owner))).keys portfolios ∧
      posted = ⟨(marked.filter (·.entry.liquidatable)).map (·.entry.position.id),
        marked.foldl (fun l m => l.record m.entry)
          { l with
            portfolios := portfolios.foldl (fun t p => t.insert p.owner p) l.portfolios },
        marked.map (·.notice)⟩ := by
  unfold refreshMarket at h
  simp only [bind_eq_ok, mapM_eq_ok, find_eq_ok, mapError_eq_ok, pure_eq_ok] at h
  obtain ⟨marked, hmarked, portfolios, hportfolios, rfl⟩ := h
  exact ⟨marked, portfolios, hmarked, hportfolios, rfl⟩

theorem positionsOf_records {marked : List Marked} (hindexed : l.WellIndexed)
    (hnodup : (marked.map (·.entry.position.id)).Nodup) (portfolios : Table AccountId Portfolio)
    (owner : AccountId) :
    (marked.foldl (fun l m => record l m.entry) { l with portfolios := portfolios }).positionsOf
      owner = l.positionsMarked marked owner := by
  refine positionsOf_eq_map hindexed ?_ fun q hq _ => ?_
  · unfold idsOf
    rw [records_eq]
  · rw [position?_records hnodup]
    cases marked.find? (·.entry.position.id = q.id) with
    | some m => rfl
    | none => exact hq

/-- Marking others changes nothing for an owner. -/
theorem positionsMarked_of_unmarked {marked : List Marked} {owner : AccountId}
    (h : ∀ q ∈ l.positionsOf owner, ∀ m ∈ marked, m.entry.position.id ≠ q.id) :
    l.positionsMarked marked owner = l.positionsOf owner := by
  unfold positionsMarked
  refine (List.map_congr_left fun q hq => ?_).trans (List.map_id _)
  have hnone : marked.find? (·.entry.position.id = q.id) = none := by
    refine List.find?_eq_none.2 fun m hm heq => ?_
    exact h q hq m hm (of_decide_eq_true heq)
  rw [hnone]
  rfl

/-- Who has none of the marked positions has what was there before. -/
theorem positionsMarked_of_notMem {marked : List Marked} (hindexed : l.WellIndexed)
    {ids : List PositionId} {mark : Price} {now : Instant}
    (hmarked : l.Marking mark now ids marked) {owner : AccountId}
    (hmem : owner ∉ marked.map (·.entry.position.owner)) :
    l.positionsMarked marked owner = l.positionsOf owner := by
  refine positionsMarked_of_unmarked fun p hp m hm heq => hmem ?_
  obtain ⟨hself, howner⟩ := hindexed.mem_positionsOf.1 hp
  have hheld := map_position?_marked hmarked hindexed.stored Position.owner (fun _ _ => rfl) hm
  rw [heq, hself, Option.map_some, Option.some.injEq] at hheld
  exact List.mem_map.2 ⟨m, hm, hheld.symm.trans howner⟩

/-- What marking positions leaves of `l`: the marked positions, and for each of their owners the
portfolio of what the owner then holds. -/
structure MarksEach (l : Ledger) (marked : List Marked) (now : Instant) (next : Ledger) :
    Prop where
  positions : next =
    marked.foldl (fun l m => l.record m.entry) { l with portfolios := next.portfolios }
  rebuilt : ∀ owner ∈ marked.map (·.entry.position.owner), ∃ portfolio,
    Portfolio.ofPositions owner (next.positionsOf owner) now = .ok portfolio ∧
      next.portfolio? owner = some portfolio
  left : ∀ owner, owner ∉ marked.map (·.entry.position.owner) →
    next.portfolio? owner = l.portfolio? owner

/-- What marking a market comes to, where it succeeds. -/
theorem refreshMarket_marksEach (hindexed : l.WellIndexed) {market : MarketId} {mark : Price}
    {now : Instant} {posted : Posted (List PositionId)}
    (h : l.refreshMarket market mark now = .ok posted) :
    ∃ marked, l.Marking mark now (l.idsIn market) marked ∧
      MarksEach l marked now posted.ledger ∧
      posted.result = (marked.filter (·.entry.liquidatable)).map (·.entry.position.id) ∧
      posted.notices = marked.map (·.notice) := by
  obtain ⟨marked, portfolios, hmarked, hportfolios, hposted⟩ := refreshMarket_writes h
  have hledger := congrArg Posted.ledger hposted
  have hwritten : posted.ledger.portfolios
      = portfolios.foldl (fun t p => t.insert p.owner p) l.portfolios := by
    rw [hledger, records_eq]
  have hinserts := get?_inserts hportfolios (fun _ _ => Portfolio.owner_of_ofPositions)
    l.portfolios
  refine ⟨marked, hmarked, ⟨?_, fun owner hmem => ?_, fun owner hmem => ?_⟩,
    congrArg Posted.result hposted, congrArg Posted.notices hposted⟩
  · rw [hwritten]
    exact hledger
  · have hpositions : posted.ledger.positionsOf owner = l.positionsMarked marked owner := by
      rw [hledger]
      exact positionsOf_records hindexed (nodup_marked hindexed.stored hmarked) _ owner
    rcases hinserts owner with ⟨-, p, hp, hfound⟩ | ⟨hnot, -⟩
    · refine ⟨p, by rw [hpositions, hp], ?_⟩
      unfold portfolio?
      rw [hwritten, hfound]
    · exact absurd (KeySet.mem_keys_ofList.2 hmem) hnot
  · rcases hinserts owner with ⟨hlisted, -⟩ | ⟨-, hfound⟩
    · exact absurd (KeySet.mem_keys_ofList.1 hlisted) hmem
    · unfold portfolio?
      rw [hwritten, hfound]

/-- Marking a market rebuilds the portfolios of those who have a position in it. -/
theorem refreshMarket_renews (hindexed : l.WellIndexed) {market : MarketId} {mark : Price}
    {now : Instant} {posted : Posted (List PositionId)}
    (h : l.refreshMarket market mark now = .ok posted) (owner : AccountId) :
    Renews l posted.ledger owner := by
  obtain ⟨marked, hmarked, heach, -, -⟩ := refreshMarket_marksEach hindexed h
  by_cases hmem : owner ∈ marked.map (·.entry.position.owner)
  · obtain ⟨p, hp, hfound⟩ := heach.rebuilt owner hmem
    obtain ⟨m, hm, howner⟩ := List.mem_map.1 hmem
    obtain ⟨q, hq, hsame⟩ := Option.map_eq_some_iff.1
      (map_position?_marked hmarked hindexed.stored Position.owner (fun _ _ => rfl) hm)
    exact .rebuilt p now (.inl ⟨_, q, hq, hsame.trans howner⟩) hfound hp
  · refine .left (heach.left owner hmem) ?_
    -- A marked position of this owner would have put them on the list.
    rw [heach.positions, positionsOf_records hindexed (nodup_marked hindexed.stored hmarked),
      positionsMarked_of_notMem hindexed hmarked hmem]

theorem portfolios_applyFunding {payments : List (PositionId × Amount)} {index : Decimal}
    {now : Instant} (h : l.applyFunding payments index now = .ok next) :
    next.portfolios = l.portfolios := by
  unfold applyFunding at h
  simp only [bind_eq_ok, pure_eq_ok] at h
  obtain ⟨totals, -, rfl⟩ := h
  induction totals generalizing l with
  | nil => rfl
  | cons total totals ih =>
    rw [List.foldl_cons, ih]
    unfold bookFunding
    cases l.entries.get? total.1 <;> rfl

/-- Funding is no stake, and no portfolio is written for it. -/
theorem applyFunding_renews {payments : List (PositionId × Amount)} {index : Decimal}
    {now : Instant} (h : l.applyFunding payments index now = .ok next) (owner : AccountId) :
    Renews l next owner := by
  have hrestates := applyFunding_restates h
  have hstakes := map_position?_applyFunding Position.stake (fun _ _ _ _ => rfl) h
  refine .left ?_ ?_
  · unfold portfolio?
    rw [portfolios_applyFunding h]
  · show ((next.idsOf owner).filterMap next.position?).map _
      = ((l.idsOf owner).filterMap l.position?).map _
    unfold idsOf
    rw [hrestates.byOwner, List.map_filterMap, List.map_filterMap]
    exact List.filterMap_congr fun id _ => hstakes id

/-! ### Every step -/

/-- Those who opened a position have a portfolio, nobody else has a position, and each portfolio is
the rollup of what its owner holds. -/
structure Rolled (l : Ledger) (opened : AccountId → Prop) : Prop where
  indexed : l.WellIndexed
  holders : ∀ owner, l.Holds owner → opened owner
  known : ∀ owner, (l.portfolio? owner).isSome = true ↔ opened owner
  current : ∀ owner p, l.portfolio? owner = some p →
    ∀ now, Portfolio.ofPositions owner (l.positionsOf owner) now = .ok { p with updatedAt := now }

namespace Rolled

variable {opened opened' : AccountId → Prop}

theorem startingAt (first : Nat) : (Ledger.startingAt first).Rolled fun _ => False where
  indexed := .startingAt first
  holders := fun _ ⟨_, _, hp, _⟩ => by cases hp
  known := fun _ => ⟨nofun, nofun⟩
  current := nofun

theorem step (h : l.Rolled opened) (hindexed : next.WellIndexed)
    (hrenews : ∀ owner, Renews l next owner) (hmore : ∀ owner, opened owner → opened' owner)
    (hholders : ∀ owner, next.Holds owner → opened' owner)
    (hfresh : ∀ owner, opened' owner → opened owner ∨ (next.portfolio? owner).isSome = true) :
    next.Rolled opened' := by
  refine ⟨hindexed, hholders, fun owner => ?_, fun owner p hp now => ?_⟩
  · constructor
    · intro hsome
      cases hrenews owner with
      | left hportfolio _ =>
        rw [hportfolio] at hsome
        exact hmore owner ((h.known owner).1 hsome)
      | rebuilt _ _ hholds _ _ =>
        rcases hholds with hbefore | hafter
        · exact hmore owner (h.holders owner hbefore)
        · exact hholders owner hafter
    · intro hopened
      rcases hfresh owner hopened with hbefore | hsome
      · cases hrenews owner with
        | left hportfolio _ =>
          rw [hportfolio]
          exact (h.known owner).2 hbefore
        | rebuilt p _ _ hportfolio _ =>
          rw [hportfolio]
          rfl
      · exact hsome
  · cases hrenews owner with
    | left hportfolio hstakes =>
      rw [Portfolio.ofPositions_congr hstakes]
      exact h.current owner p (hportfolio ▸ hp) now
    | rebuilt p' now' _ hportfolio hrolled =>
      rw [hportfolio, Option.some.injEq] at hp
      rw [← hp]
      exact Portfolio.ofPositions_at hrolled now

/-- A step that opens nothing lets nobody in. -/
theorem settled (h : l.Rolled opened) (hindexed : next.WellIndexed)
    (hrenews : ∀ owner, Renews l next owner) (hcontinues : Continues l [] next) :
    next.Rolled opened := by
  refine h.step hindexed hrenews (fun _ hopened => hopened) ?_ (fun _ hopened => .inl hopened)
  rintro owner ⟨id, p', hp', rfl⟩
  obtain ⟨p, hp, hsame⟩ := (hcontinues id p' hp').resolve_right List.not_mem_nil
  exact h.holders _ ⟨id, p, hp, (Position.owner_eq_of_identity hsame).symm⟩

theorem opens (h : l.Rolled opened) {p : Position} {now : Instant} {notice : Notice}
    (hopens : Opens l p now notice next) :
    next.Rolled fun owner => opened owner ∨ owner = p.owner := by
  refine h.step (h.indexed.opens hopens) (hopens.renews h.indexed) (fun _ => .inl) ?_ ?_
  · rintro owner ⟨id, q, hq, rfl⟩
    rw [hopens.position?] at hq
    by_cases hid : id = p.id
    · rw [if_pos hid, Option.some.injEq] at hq
      exact .inr (by rw [← hq])
    · rw [if_neg hid] at hq
      exact .inl (h.holders _ ⟨id, q, hq, rfl⟩)
  · rintro owner (hopened | rfl)
    · exact .inl hopened
    · obtain ⟨oi, portfolio, -, hportfolio, rfl⟩ := hopens.posted
      refine .inr ?_
      show ((l.portfolios.insert portfolio.owner portfolio).get? p.owner).isSome = true
      rw [Portfolio.owner_of_ofPositions hportfolio, Table.get?_insert_self]
      rfl

theorem forceReduce (h : l.Rolled opened) {id : PositionId} {amount : Decimal} {price : Price}
    {schedule : MarginSchedule} {now : Instant} {posted : Posted Reduction}
    (hx : l.forceReduce id amount price schedule now = .ok posted) :
    posted.ledger.Rolled opened := by
  have hchange := forceReduce_change hx
  refine h.settled (h.indexed.change hchange) (fun owner => ?_)
    (change_continues h.indexed.stored hchange)
  obtain ⟨current, hcurrent, ⟨-, -, hcloses⟩ | ⟨-, -, p, notice, hsame, -, hamends⟩⟩ :=
    forceReduce_eq_ok hx
  · exact hcloses.renews h.indexed owner
  · exact hamends.renews h.indexed hcurrent hsame owner

end Rolled

/-- The owners of the positions that a run opened. -/
def openersIn (ops : List Operation) (replies : List (Except Refusal Reply)) : List AccountId :=
  (ops.zip replies).filterMap fun
    | (.openPosition order _ _, .ok _) => some order.owner
    | _ => none

theorem openersIn_cons (op : Operation) (ops : List Operation) (reply : Except Refusal Reply)
    (replies : List (Except Refusal Reply)) :
    openersIn (op :: ops) (reply :: replies) = openersIn [op] [reply] ++ openersIn ops replies := by
  unfold openersIn
  rw [← List.filterMap_append]
  rfl

namespace Rolled

variable {opened opened' : AccountId → Prop}

theorem congr (h : l.Rolled opened) (hiff : ∀ owner, opened' owner ↔ opened owner) :
    l.Rolled opened' := by
  rwa [show opened' = opened from funext fun owner => propext (hiff owner)]

/-- Opening lets one owner in, and nothing else lets in any. -/
theorem answer (h : l.Rolled opened) {op : Operation} {r : Reply}
    (hanswer : l.answer op = .ok (r, next)) :
    openersIn [op] [.ok r] = [] ∧ next.Rolled opened ∨
      ∃ p now notice, openersIn [op] [.ok r] = [p.owner] ∧ Opens l p now notice next := by
  have hindexed := h.indexed
  cases op with
  | openPosition order schedule now =>
    obtain ⟨posted, hx, rfl, rfl⟩ := posting_eq_ok hanswer
    obtain ⟨price, notice, -, -, hopens⟩ := openPosition_eq_ok hx
    exact .inr ⟨_, now, notice, rfl, hopens⟩
  | modify id sizeDelta collateralDelta price schedule now =>
    obtain ⟨posted, hx, rfl, rfl⟩ := posting_eq_ok hanswer
    obtain ⟨current, p, notice, hheld, hsame, hpos, -, hamends⟩ := modify_eq_ok hx
    have hchange : Change l posted.ledger := .amended hheld hsame hpos hamends
    exact .inl ⟨rfl, h.settled (hindexed.change hchange) (hamends.renews hindexed hheld hsame)
      (change_continues hindexed.stored hchange)⟩
  | close id price now =>
    obtain ⟨posted, hx, rfl, rfl⟩ := posting_eq_ok hanswer
    obtain ⟨-, hcloses⟩ := close_eq_ok hx
    exact .inl ⟨rfl, h.settled (hindexed.closes hcloses) (hcloses.renews hindexed)
      (change_continues hindexed.stored (.closed hcloses))⟩
  | forceReduce id amount price schedule now =>
    obtain ⟨posted, hx, rfl, rfl⟩ := posting_eq_ok hanswer
    exact .inl ⟨rfl, h.forceReduce hx⟩
  | refresh id mark now =>
    obtain ⟨posted, hx, rfl, rfl⟩ := posting_eq_ok hanswer
    rw [refusing_eq_ok] at hx
    have hchange : Change l posted.ledger := .restated (refresh_restates hindexed.stored hx)
    exact .inl ⟨rfl, h.settled (hindexed.change hchange) (refresh_renews hindexed hx)
      (change_continues hindexed.stored hchange)⟩
  | refreshMarket market mark now =>
    obtain ⟨posted, hx, rfl, rfl⟩ := posting_eq_ok hanswer
    rw [refusing_eq_ok] at hx
    have hchange : Change l posted.ledger :=
      .restated (refreshMarket_restates hindexed.stored hx)
    exact .inl ⟨rfl, h.settled (hindexed.change hchange) (refreshMarket_renews hindexed hx)
      (change_continues hindexed.stored hchange)⟩
  | applyFunding payments index now =>
    unfold Ledger.answer at hanswer
    simp only [bind_eq_ok, refusing_eq_ok, pure_eq_ok, Prod.mk.injEq] at hanswer
    obtain ⟨_, hx, -, rfl⟩ := hanswer
    have hchange := Change.restated (applyFunding_restates hx)
    exact .inl ⟨rfl, h.settled (hindexed.change hchange) (applyFunding_renews hx)
      (change_continues hindexed.stored hchange)⟩
  | deleverage queue schedule shortfall now =>
    obtain ⟨coverage, left, -, hx⟩ := deleverage_eq_ok hanswer
    exact .inl ⟨rfl, DeleverageQueue.execute_invariant (P := fun l => l.Rolled opened)
      (fun _ _ _ _ _ _ _ hrolled hforced => hrolled.forceReduce hforced) hx h⟩

theorem perform (h : l.Rolled opened) {op : Operation} {reply : Except Refusal Reply}
    (hperform : l.perform op = .ok (reply, next)) :
    next.Rolled fun owner => opened owner ∨ owner ∈ openersIn [op] [reply] := by
  rcases orStay_eq_ok.1 hperform with ⟨r, rfl, hanswer⟩ | ⟨cause, rfl, -, rfl⟩
  · rcases h.answer hanswer with ⟨hnone, hrolled⟩ | ⟨p, now, notice, hone, hopens⟩
    · refine hrolled.congr fun owner => ?_
      rw [hnone]
      exact or_iff_left List.not_mem_nil
    · refine (h.opens hopens).congr fun owner => ?_
      rw [hone, List.mem_singleton]
  · refine h.congr fun owner => or_iff_left ?_
    cases op <;> exact List.not_mem_nil

theorem run (h : l.Rolled opened) {ops : List Operation} {replies : List (Except Refusal Reply)}
    {last : Ledger} (hrun : l.run ops = .ok (replies, last)) :
    last.Rolled fun owner => opened owner ∨ owner ∈ openersIn ops replies := by
  induction ops generalizing l opened replies with
  | nil =>
    cases hrun
    exact h.congr fun owner => or_iff_left List.not_mem_nil
  | cons op ops ih =>
    obtain ⟨reply, mid, rest, hperform, hrest, rfl⟩ := inTurn_cons_eq_ok.1 hrun
    refine (ih (h.perform hperform) hrest).congr fun owner => ?_
    rw [openersIn_cons, List.mem_append, or_assoc]

end Rolled

/-! ### What a run leaves -/

/-- The open positions of an owner, in the order in which the run opened them. -/
def stillHeld (l : Ledger) (replies : List (Except Refusal Reply)) (owner : AccountId) :
    List Position :=
  ((openedIn replies).filterMap l.position?).filter (·.owner = owner)

/-- By number and by order of opening, the open positions are the same list. -/
theorem stillHeld_eq {first : Nat} {ops : List Operation} {replies : List (Except Refusal Reply)}
    (h : (startingAt first).run ops = .ok (replies, l)) (owner : AccountId) :
    l.stillHeld replies owner = l.positionsOf owner := by
  have hfirst := WellIndexed.startingAt first
  have hindexed := hfirst.run h
  obtain ⟨hascending, -, -⟩ := run_numbers hfirst h
  have hopened : ∀ id p, l.position? id = some p → id ∈ openedIn replies := by
    intro id p hp
    rcases run_continues hfirst h id p hp with ⟨q, hq, -⟩ | hid
    · cases hq
    · exact hid
  unfold stillHeld
  rw [hindexed.positionsOf_eq_filter]
  refine congrArg _ ?_
  refine WellIndexed.eq_of_ascending ?_ hindexed.positions_ascending fun p => ?_
  · rw [List.pairwise_filterMap]
    refine hascending.imp fun {a b} hlt p hp q hq => ?_
    rwa [hindexed.stored a p hp, hindexed.stored b q hq]
  · rw [List.mem_filterMap, hindexed.mem_positions]
    constructor
    · rintro ⟨id, -, hp⟩
      exact hindexed.stored.position?_id hp
    · intro hp
      exact ⟨p.id, hopened p.id p hp, hp⟩

/-- **No portfolio is ever stale.**  After any run an owner has a portfolio just where one of the
orders to open a position for them was carried out.  It is, but for its date, the portfolio that
would be built from their open positions in the order of opening, at any time; without open
positions it is the bare one. -/
theorem run_portfolios {first : Nat} {ops : List Operation}
    {replies : List (Except Refusal Reply)}
    (h : (startingAt first).run ops = .ok (replies, l)) (owner : AccountId) :
    ((l.portfolio? owner).isSome = true ↔ owner ∈ openersIn ops replies) ∧
      ∀ p, l.portfolio? owner = some p →
        (∀ now, Portfolio.ofPositions owner (l.stillHeld replies owner) now
          = .ok { p with updatedAt := now }) ∧
        (l.stillHeld replies owner = [] → p = .bare owner p.updatedAt) := by
  have hrolled := (Rolled.startingAt first).run h
  refine ⟨(hrolled.known owner).trans (or_iff_right id), fun p hp => ?_⟩
  rw [stillHeld_eq h]
  have hcurrent := hrolled.current owner p hp
  refine ⟨hcurrent, fun hnone => ?_⟩
  have hbare := hcurrent p.updatedAt
  rw [hnone, Portfolio.ofPositions_nil, Except.ok.injEq] at hbare
  exact hbare.symm

/-- Two markets with standard margins. -/
def twoMarkets : MarginSchedule :=
  ⟨(Table.empty.insert ⟨1⟩ .standard).insert ⟨2⟩ .standard⟩

/-- A queue that has two longs of the first market, the first of them first. -/
def twoCandidates : DeleverageQueue :=
  let empty : DeleverageQueue :=
    { DeleverageQueue.empty 1 with terms := Table.empty.insert ⟨1⟩ .standard }
  (empty.update ⟨⟨1⟩, ⟨1⟩, ⟨1⟩, .long, .one, ⟨5⟩, .ofUInt32 2, .epoch⟩).update
    ⟨⟨1⟩, ⟨3⟩, ⟨2⟩, .long, .one, ⟨5⟩, .one, .epoch⟩

/-- An owner with positions in two markets and one whose only position is closed at last; a third
is refused.  In between a deleveraging comes to its second candidate and fails there. -/
def sampleBusiness : List Operation :=
  [.openPosition (sampleOrder ⟨1⟩ .long (.ofUInt32 20)) twoMarkets .epoch,
    .openPosition { sampleOrder ⟨1⟩ .short .one with market := ⟨2⟩ } twoMarkets .epoch,
    .openPosition (sampleOrder ⟨2⟩ .long (.ofUInt32 30)) twoMarkets .epoch,
    .openPosition (sampleOrder ⟨3⟩ .long .zero) twoMarkets .epoch,
    .refreshMarket ⟨1⟩ (.ofUInt32 110) .epoch,
    .applyFunding [(⟨1⟩, .one)] .one .epoch,
    .deleverage twoCandidates twoMarkets
      ⟨⟨1⟩, ⟨9⟩, .short, .ofUInt32 40, (ofParts? false 3000000000000000000000000000 0).getD .zero⟩
      .epoch,
    .close ⟨3⟩ (.ofUInt32 110) .epoch]

/-- All three portfolios are as they should be, the missing one too. -/
theorem run_portfolios_rolledBack :
    ∃ replies l, (startingAt 1).run sampleBusiness = .ok (replies, l) ∧
      (replies[6]? = some (.error (.deleverage
          (.forcedClose (.arithmetic (.overflow "unrealized pnl"))))) ∧
        openersIn sampleBusiness replies = [⟨1⟩, ⟨1⟩, ⟨2⟩] ∧
        (l.portfolio? ⟨1⟩).map (·.openPositions) = some 2 ∧ l.stillHeld replies ⟨2⟩ = []) ∧
      ∀ owner, ((l.portfolio? owner).isSome = true ↔ owner ∈ openersIn sampleBusiness replies) ∧
        ∀ p, l.portfolio? owner = some p →
          (∀ now, Portfolio.ofPositions owner (l.stillHeld replies owner) now
            = .ok { p with updatedAt := now }) ∧
          (l.stillHeld replies owner = [] → p = .bare owner p.updatedAt) := by
  obtain ⟨⟨replies, l⟩, h, htest⟩ := exists_of_succeedsWith
    (fun r : List (Except Refusal Reply) × Ledger => r.1[6]? = some (.error (.deleverage
        (.forcedClose (.arithmetic (.overflow "unrealized pnl"))))) ∧
      openersIn sampleBusiness r.1 = [⟨1⟩, ⟨1⟩, ⟨2⟩] ∧
      (r.2.portfolio? ⟨1⟩).map (·.openPositions) = some 2 ∧ r.2.stillHeld r.1 ⟨2⟩ = [])
    (x := (startingAt 1).run sampleBusiness) (by decide +kernel)
  exact ⟨replies, l, h, of_decide_eq_true htest, fun owner => run_portfolios h owner⟩

end Ledger

end Clearing

import Clearing.Proofs.Ledger.Portfolios

/-!
A market marked at once, and its positions marked one after the other.

Marking a market works out all of its positions first and then one portfolio for each owner.
Marked one after the other, an owner of several positions gets a portfolio after each, from the
positions marked so far; the last one stays, and by then all of them are marked.  So whatever
succeeds position by position succeeds at once, and leaves the same ledger and the same queue
(`refreshMarket_of_each`).
-/

namespace Clearing

namespace Ledger

/-- Marks positions one after the other, and tells the queue each time.  Returns those that can be
liquidated. -/
def refreshEach (mark : Price) (now : Instant) : List PositionId → Ledger → DeleverageQueue →
    Except LedgerError (List PositionId × Ledger × DeleverageQueue)
  | [], l, q => .ok ([], l, q)
  | id :: ids, l, q => do
    let posted ← l.refresh id mark now
    let (flagged, last, left) ←
      refreshEach mark now ids posted.ledger (q.notifyAll posted.notices)
    return (if posted.result then id :: flagged else flagged, last, left)

variable {l next : Ledger} {q q' : DeleverageQueue} {mark : Price} {now : Instant}
  {marked : List Marked} {ids flagged : List PositionId}

/-! ### One position -/

/-- `next` is `l` with one position marked, and the portfolio of its owner written anew. -/
structure Marks (l : Ledger) (id : PositionId) (mark : Price) (now : Instant) (m : Marked)
    (next : Ledger) : Prop where
  marked : ∃ p, l.position? id = some p ∧ markAt p mark now = .ok m
  posted : ∃ portfolio,
    Portfolio.ofPositions m.entry.position.owner (l.positionsWith m.entry.position) now
      = .ok portfolio ∧
    next = { l with portfolios := l.portfolios.insert m.entry.position.owner portfolio }.record
      m.entry

theorem refresh_marks {id : PositionId} {posted : Posted Bool}
    (h : l.refresh id mark now = .ok posted) :
    ∃ m, Marks l id mark now m posted.ledger ∧ posted.result = m.entry.liquidatable ∧
      posted.notices = [m.notice] := by
  unfold refresh at h
  simp only [bind_eq_ok, find_eq_ok, mapError_eq_ok, pure_eq_ok] at h
  obtain ⟨p, hp, pnl, hpnl, portfolio, hportfolio, notice, hnotice, rfl⟩ := h
  have hmark : markAt p mark now = .ok ⟨⟨{ p with unrealizedPnl := pnl },
      { p with unrealizedPnl := pnl }.isLiquidatableAt mark⟩, notice⟩ := by
    unfold markAt
    simp only [bind_eq_ok, pure_eq_ok]
    exact ⟨pnl, hpnl, notice, hnotice, rfl⟩
  exact ⟨_, ⟨⟨p, hp, hmark⟩, portfolio, hportfolio, rfl⟩, rfl, rfl⟩

namespace Marks

variable {id : PositionId} {m : Marked}

theorem identity (h : Marks l id mark now m next) :
    ∃ p, l.position? id = some p ∧ m.entry.position.identity = p.identity := by
  obtain ⟨p, hp, hm⟩ := h.marked
  obtain ⟨-, hposition, -⟩ := markAt_eq_ok hm
  exact ⟨p, hp, by rw [hposition]; rfl⟩

theorem id_eq (hstored : l.Stored) (h : Marks l id mark now m next) :
    m.entry.position.id = id := by
  obtain ⟨p, hp, hsame⟩ := h.identity
  rw [Position.id_eq_of_identity hsame, hstored id p hp]

theorem position? (h : Marks l id mark now m next) (other : PositionId) :
    next.position? other =
      if other = m.entry.position.id then some m.entry.position else l.position? other := by
  obtain ⟨portfolio, -, rfl⟩ := h.posted
  exact position?_record _ m.entry other

/-- The owner of the position has the portfolio of what they then hold. -/
theorem rebuilt (hindexed : l.WellIndexed) (h : Marks l id mark now m next) :
    ∃ portfolio,
      Portfolio.ofPositions m.entry.position.owner (next.positionsOf m.entry.position.owner) now
        = .ok portfolio ∧
      next.portfolio? m.entry.position.owner = some portfolio := by
  obtain ⟨p, hp, hsame⟩ := h.identity
  obtain ⟨portfolio, hportfolio, hnext⟩ := h.posted
  have howner := positionsOf_written hindexed hp hsame (by rw [hnext]; rfl) h.position?
    m.entry.position.owner
  rw [if_pos rfl] at howner
  refine ⟨portfolio, by rw [howner, hportfolio], ?_⟩
  rw [hnext]
  exact Table.get?_insert_self ..

theorem left (h : Marks l id mark now m next) {owner : AccountId}
    (hne : owner ≠ m.entry.position.owner) : next.portfolio? owner = l.portfolio? owner := by
  obtain ⟨portfolio, -, rfl⟩ := h.posted
  exact Table.get?_insert_of_ne _ _ hne

end Marks

/-! ### Positions one after the other -/

/-- One position by itself. -/
theorem Marks.each {id : PositionId} {m : Marked} (hindexed : l.WellIndexed)
    (h : Marks l id mark now m next) : MarksEach l [m] now next where
  positions := by
    obtain ⟨portfolio, -, rfl⟩ := h.posted
    rfl
  rebuilt owner howner := by
    rw [List.map_singleton, List.mem_singleton] at howner
    rw [howner]
    exact h.rebuilt hindexed
  left owner howner := by
    rw [List.map_singleton, List.mem_singleton] at howner
    exact h.left howner

theorem records_withPortfolios (marked : List Marked) (l : Ledger)
    (portfolios : Table AccountId Portfolio) :
    { marked.foldl (fun l m => record l m.entry) l with portfolios := portfolios }
      = marked.foldl (fun l m => record l m.entry) { l with portfolios := portfolios } := by
  induction marked generalizing l with
  | nil => rfl
  | cons m marked ih => exact ih (l.record m.entry)

/-- Whatever portfolios there are, the positions are those that were marked. -/
theorem MarksEach.withPortfolios {mid : Ledger} (h : MarksEach l marked now mid)
    (portfolios : Table AccountId Portfolio) :
    { mid with portfolios := portfolios }
      = marked.foldl (fun l m => record l m.entry) { l with portfolios := portfolios } :=
  (congrArg (fun l => { l with portfolios := portfolios }) h.positions).trans
    (records_withPortfolios marked _ _)

/-- Marking more positions, of those that were not marked yet. -/
theorem MarksEach.append {mid : Ledger} {more : List Marked} (hmid : mid.WellIndexed)
    (h : MarksEach l marked now mid) (hmore : mid.Marking mark now ids more)
    (hnodup : ids.Nodup) (h' : MarksEach mid more now next) :
    MarksEach l (marked ++ more) now next := by
  refine ⟨?_, ?_, ?_⟩
  · rw [List.foldl_append, ← h.withPortfolios]
    exact h'.positions
  · intro owner hmem
    rw [List.map_append, List.mem_append] at hmem
    by_cases hlater : owner ∈ more.map (·.entry.position.owner)
    · exact h'.rebuilt owner hlater
    · -- Nothing that is marked later belongs to this owner, so what was written stays.
      have hpositions : next.positionsOf owner = mid.positionsOf owner := by
        rw [h'.positions, positionsOf_records hmid (by rwa [ids_marked hmore hmid.stored]),
          positionsMarked_of_notMem hmid hmore hlater]
      rw [hpositions, h'.left _ hlater]
      exact h.rebuilt owner (hmem.resolve_right hlater)
  · intro owner hmem
    rw [List.map_append, List.mem_append, not_or] at hmem
    rw [h'.left owner hmem.2, h.left owner hmem.1]

/-- **What marking positions one after the other comes to.**

By induction on the positions.  None of those that follow is the one that is marked first, so they
are marked as they are in `l`. -/
theorem refreshEach_marks (hindexed : l.WellIndexed) (hnodup : ids.Nodup)
    (h : refreshEach mark now ids l q = .ok (flagged, next, q')) :
    ∃ marked, l.Marking mark now ids marked ∧ MarksEach l marked now next ∧
      flagged = (marked.filter (·.entry.liquidatable)).map (·.entry.position.id) ∧
      q' = q.notifyAll (marked.map (·.notice)) := by
  induction ids generalizing l q flagged with
  | nil =>
    cases h
    exact ⟨[], .nil, ⟨rfl, nofun, fun _ _ => rfl⟩, rfl, rfl⟩
  | cons id ids ih =>
    obtain ⟨hnew, hnodup⟩ := List.nodup_cons.1 hnodup
    unfold refreshEach at h
    simp only [bind_eq_ok, pure_eq_ok, Prod.exists, Prod.mk.injEq] at h
    obtain ⟨posted, hposted, flagged', last, later, hrest, rfl, rfl, rfl⟩ := h
    obtain ⟨m, hm, hresult, hnotices⟩ := refresh_marks hposted
    have hid := hm.id_eq hindexed.stored
    have hmid : posted.ledger.WellIndexed :=
      hindexed.of_sameIndices (refresh_restates hindexed.stored hposted).sameIndices
    obtain ⟨marked, hmarked, heach, hflagged, hqueue⟩ := ih hmid hnodup hrest
    have hmarked' : l.Marking mark now ids marked := by
      have hne : ∀ other ∈ ids, other ≠ id := fun other hother heq => hnew (heq ▸ hother)
      refine ((List.forall₂_and_left ..).2 ⟨hne, hmarked⟩).imp ?_
      rintro other m' ⟨hother, p, hp, hmark⟩
      rw [hm.position?, hid, if_neg hother] at hp
      exact ⟨p, hp, hmark⟩
    refine ⟨m :: marked, .cons hm.marked hmarked',
      (hm.each hindexed).append hmid hmarked hnodup heach, ?_, ?_⟩
    · rw [hresult, hflagged, List.filter_cons]
      split
      · rw [List.map_cons, hid]
      · rfl
    · rw [hqueue, hnotices]
      rfl

/-! ### All at once -/

theorem get?_entries_of_marked (hnodup : (marked.map (·.entry.position.id)).Nodup) {m : Marked}
    (hm : m ∈ marked) (l : Ledger) :
    (marked.foldl (fun l m => l.record m.entry) l).entries.get? m.entry.position.id
      = some m.entry := by
  rw [get?_entries_records hnodup]
  cases hfind : marked.find? (·.entry.position.id = m.entry.position.id) with
  | none => exact absurd (decide_eq_true rfl) (List.find?_eq_none.1 hfind m hm)
  | some found =>
    have hid : found.entry.position.id = m.entry.position.id := by
      simpa using List.find?_some hfind
    rw [List.inj_on_of_nodup_map hnodup (List.mem_of_find?_eq_some hfind) hm hid]

theorem MarksEach.refreshMarket (hindexed : l.WellIndexed) {market : MarketId}
    (hmarked : l.Marking mark now (l.idsIn market) marked) (h : MarksEach l marked now next) :
    l.refreshMarket market mark now =
      .ok ⟨(marked.filter (·.entry.liquidatable)).map (·.entry.position.id), next,
        marked.map (·.notice)⟩ := by
  have hnodup := nodup_marked hindexed.stored hmarked
  have hpositions : ∀ owner, l.positionsMarked marked owner = next.positionsOf owner := by
    intro owner
    rw [h.positions, positionsOf_records hindexed hnodup]
  -- Every portfolio was worked out before, from the same positions.
  have hbuilt : ∀ owner ∈ (KeySet.ofList (marked.map (·.entry.position.owner))).keys,
      ∃ portfolio,
        Portfolio.ofPositions owner (l.positionsMarked marked owner) now = .ok portfolio := by
    intro owner howner
    obtain ⟨portfolio, hportfolio, -⟩ := h.rebuilt owner (KeySet.mem_keys_ofList.1 howner)
    exact ⟨portfolio, by rw [hpositions, hportfolio]⟩
  obtain ⟨portfolios, hportfolios⟩ := exists_mapM hbuilt
  rw [mapM_eq_ok] at hportfolios
  have hwritten : portfolios.foldl (fun t p => t.insert p.owner p) l.portfolios
      = next.portfolios := by
    refine Table.ext_get? fun owner => ?_
    rcases get?_inserts hportfolios (fun _ _ => Portfolio.owner_of_ofPositions) l.portfolios owner
      with ⟨hmem, p, hp, hfound⟩ | ⟨hmem, hfound⟩
    · obtain ⟨portfolio, hportfolio, hkept⟩ := h.rebuilt owner (KeySet.mem_keys_ofList.1 hmem)
      rw [hpositions, hportfolio, Except.ok.injEq] at hp
      rw [hfound, ← hp]
      exact hkept.symm
    · rw [hfound]
      exact (h.left owner fun hlisted => hmem (KeySet.mem_keys_ofList.2 hlisted)).symm
  unfold Ledger.refreshMarket
  simp only [bind_eq_ok, mapM_eq_ok, find_eq_ok, mapError_eq_ok, pure_eq_ok]
  refine ⟨marked, hmarked, portfolios, hportfolios, ?_⟩
  rw [hwritten, ← h.positions]

/-- Those that were flagged are the positions of the market that are flagged afterwards. -/
theorem MarksEach.flagged_eq (hindexed : l.WellIndexed) {market : MarketId}
    (hmarked : l.Marking mark now (l.idsIn market) marked) (h : MarksEach l marked now next) :
    (marked.filter (·.entry.liquidatable)).map (·.entry.position.id) =
      (next.idsIn market).filter fun id => next.isLiquidatable? id = some true := by
  have hnodup := nodup_marked hindexed.stored hmarked
  have hlisted : next.idsIn market = marked.map (·.entry.position.id) := by
    rw [ids_marked hmarked hindexed.stored, h.positions, records_eq]
    rfl
  rw [hlisted, List.filter_map]
  congr 1
  refine List.filter_congr fun m hm => ?_
  have hflag : next.isLiquidatable? m.entry.position.id = some m.entry.liquidatable := by
    unfold isLiquidatable?
    rw [h.positions, get?_entries_of_marked hnodup hm, Option.map_some]
  simp only [Function.comp_apply, hflag]
  cases m.entry.liquidatable <;> rfl

/-- **A market whose positions can be marked one after the other can be marked at once**, and that
leaves the same ledger and the same queue.  It returns those of its positions that are flagged
afterwards, ascending. -/
theorem refreshMarket_of_each {first : Nat} {ops : List Operation}
    {replies : List (Except Refusal Reply)} (hl : (startingAt first).run ops = .ok (replies, l))
    {market : MarketId} (h : refreshEach mark now (l.idsIn market) l q = .ok (flagged, next, q')) :
    (∃ notices, l.refreshMarket market mark now = .ok ⟨flagged, next, notices⟩ ∧
      q.notifyAll notices = q') ∧
    flagged = (next.idsIn market).filter (fun id => next.isLiquidatable? id = some true) ∧
    flagged.Pairwise fun a b => a.val < b.val := by
  have hindexed : l.WellIndexed := (WellIndexed.startingAt first).run hl
  obtain ⟨marked, hmarked, heach, hflagged, hqueue⟩ :=
    refreshEach_marks hindexed (Table.keys_nodup _) h
  have hstands := hflagged.trans (heach.flagged_eq hindexed hmarked)
  refine ⟨⟨marked.map (·.notice), ?_, hqueue.symm⟩, hstands, ?_⟩
  · rw [hflagged]
    exact heach.refreshMarket hindexed hmarked
  · rw [hstands]
    exact (Table.keys_ascending _).filter _

/-- Owner 1 has a position in another market and two in the one that is marked at 45: a long that
can be liquidated there and a short that gains.  Owner 2 has one that gains as much. -/
def sampleMarket : List Operation :=
  [.openPosition { sampleOrder ⟨1⟩ .long (.ofUInt32 10) with collateral := .ofUInt32 500 }
      twoMarkets .epoch,
    .openPosition { sampleOrder ⟨1⟩ .long .one with market := ⟨2⟩ } twoMarkets .epoch,
    .openPosition (sampleOrder ⟨2⟩ .short .one) twoMarkets .epoch,
    .openPosition (sampleOrder ⟨1⟩ .short .one) twoMarkets .epoch]

/-- Both ways the long is returned, and of the two shorts the earlier one comes first. -/
theorem refreshMarket_of_each_twoOwners :
    ∃ replies l flagged next q,
      (startingAt 1).run sampleMarket = .ok (replies, l) ∧
      refreshEach (.ofUInt32 45) .epoch (l.idsIn ⟨1⟩) l (.empty 10) = .ok (flagged, next, q) ∧
      flagged = [⟨1⟩] ∧ (q.candidates ⟨⟨1⟩, .short⟩).map (·.position) = [⟨3⟩, ⟨4⟩] ∧
      ∃ notices, l.refreshMarket ⟨1⟩ (.ofUInt32 45) .epoch = .ok ⟨flagged, next, notices⟩ ∧
        (DeleverageQueue.empty 10).notifyAll notices = q := by
  obtain ⟨⟨replies, l⟩, hl, htest⟩ := exists_of_succeedsWith
    (fun r : List (Except Refusal Reply) × Ledger => succeedsWith
      (fun x : List PositionId × Ledger × DeleverageQueue => decide (x.1 = [⟨1⟩] ∧
        (x.2.2.candidates ⟨⟨1⟩, .short⟩).map (·.position) = [⟨3⟩, ⟨4⟩]))
      (refreshEach (.ofUInt32 45) .epoch (r.2.idsIn ⟨1⟩) r.2 (.empty 10)))
    (x := (startingAt 1).run sampleMarket) (by decide +kernel)
  obtain ⟨⟨flagged, next, q⟩, heach, htest⟩ := exists_of_succeedsWith _ htest
  obtain ⟨hflagged, hqueue⟩ := of_decide_eq_true htest
  exact ⟨replies, l, flagged, next, q, hl, heach, hflagged, hqueue,
    (refreshMarket_of_each hl heach).1⟩

end Ledger

end Clearing

import Clearing.Proofs.Deleverage.Ranking
import Clearing.Proofs.Ledger.Indices

/-!
Notices, lane by lane.

A notice is about one lane, and reading it changes the ranking of that lane and nothing else, by
what was there before (`Notice.revise`).  So what a queue becomes after many notices can be told of
each lane from the notices about it, in their order, and how the lanes take turns does not matter
(`notifyAll_congr`).
-/

namespace Clearing

/-- The lane that a notice is about. -/
def Notice.lane : Notice → Lane
  | gaining candidate => candidate.lane
  | left market _ side => ⟨market, side⟩

theorem Notice.lane_of_position {p : Position} {now : Instant} {notice : Notice}
    (h : p.notice now = .ok notice) : notice.lane = p.lane := by
  rcases notice_eq_ok h with ⟨-, c, rfl, hshows⟩ | ⟨-, rfl⟩
  · exact hshows.lane
  · rfl

namespace Ledger

variable {l : Ledger}

/-- The notices of an opening are about the market of the order. -/
theorem market_of_opened {order : Order} {schedule : MarginSchedule} {now : Instant}
    {posted : Posted PositionId}
    (hposted : l.openPosition order schedule now = .ok posted) :
    ∀ notice ∈ posted.notices, notice.lane.market = order.market := by
  obtain ⟨price, notice, -, hnotices, hopens⟩ := openPosition_eq_ok hposted
  rw [hnotices, List.forall_mem_singleton, Notice.lane_of_position hopens.notified]
  rfl

/-- The notices of a change are about the market of the position. -/
theorem market_of_modified {id : PositionId} {sizeDelta : Decimal}
    {collateralDelta : Amount} {price : Price} {schedule : MarginSchedule} {now : Instant}
    {before : Position} {posted : Posted Amount} (hheld : l.position? id = some before)
    (hposted : l.modify id sizeDelta collateralDelta price schedule now = .ok posted) :
    ∀ notice ∈ posted.notices, notice.lane.market = before.market := by
  obtain ⟨current, p, notice, hcurrent, hsame, -, hnotices, hamends⟩ :=
    modify_eq_ok hposted
  obtain rfl : current = before := Option.some.inj (hcurrent.symm.trans hheld)
  rw [hnotices, List.forall_mem_singleton, Notice.lane_of_position hamends.notified,
    Position.lane_eq_of_identity hsame]
  rfl

/-- The notices of a refresh are about the market that was refreshed. -/
theorem market_of_refreshed {other : MarketId} {mark : Price} {now : Instant}
    {posted : Posted (List PositionId)} (hindexed : l.WellIndexed)
    (hposted : l.refreshMarket other mark now = .ok posted) :
    ∀ notice ∈ posted.notices, notice.lane.market = other := by
  intro notice hmem
  obtain ⟨marked, -, hmarked, hnotices, -⟩ := refreshMarket_eq_ok hposted
  rw [hnotices, List.mem_map] at hmem
  obtain ⟨m, hm, rfl⟩ := hmem
  obtain ⟨p, -, hmarket, hmark⟩ := hindexed.exists_of_marked hmarked hm
  obtain ⟨-, hposition, hnotice⟩ := markAt_eq_ok hmark
  rw [Notice.lane_of_position hnotice, hposition]
  exact hmarket

end Ledger

/-- What a notice makes of the ranking of its lane, where there is one. -/
def Notice.revise (r : Option Ranking) : Notice → Option Ranking
  | gaining c =>
    if c.isProfitable then some ((r.getD .empty).upsert c) else r.map (·.remove c.position)
  | left _ id _ => r.map (·.remove id)

namespace DeleverageQueue

variable {q : DeleverageQueue} {notices notices' : List Notice}

theorem get?_rankings_remove (q : DeleverageQueue) (lane other : Lane) (id : PositionId) :
    (q.remove lane id).rankings.get? other =
      if other = lane then (q.rankings.get? other).map (·.remove id)
      else q.rankings.get? other := by
  unfold remove
  cases hget : q.rankings.get? lane with
  | none =>
    by_cases hlane : other = lane
    · rw [if_pos hlane, hlane, hget]
      rfl
    · rw [if_neg hlane]
  | some r =>
    show (q.rankings.insert lane (r.remove id)).get? other = _
    rw [Table.get?_insert_eq]
    by_cases hlane : other = lane
    · rw [if_pos hlane, if_pos hlane, hlane, hget]
      rfl
    · rw [if_neg hlane, if_neg hlane]

theorem get?_rankings_notify (q : DeleverageQueue) (notice : Notice) (lane : Lane) :
    (q.notify notice).rankings.get? lane =
      if lane = notice.lane then notice.revise (q.rankings.get? lane)
      else q.rankings.get? lane := by
  cases notice with
  | left market id side => exact get?_rankings_remove q ⟨market, side⟩ lane id
  | gaining c =>
    show (q.update c).rankings.get? lane = if lane = c.lane then
      if c.isProfitable then some (((q.rankings.get? lane).getD .empty).upsert c)
      else (q.rankings.get? lane).map (·.remove c.position)
      else q.rankings.get? lane
    unfold update
    by_cases hgains : c.isProfitable = true
    · rw [if_pos hgains, if_pos hgains]
      show (q.rankings.insert c.lane _).get? lane = _
      rw [Table.get?_insert_eq]
      by_cases hlane : lane = c.lane
      · rw [if_pos hlane, if_pos hlane, hlane]
        rfl
      · rw [if_neg hlane, if_neg hlane]
    · rw [if_neg hgains, if_neg hgains]
      exact get?_rankings_remove q c.lane lane c.position

/-- The ranking of a lane after notices comes from those about it. -/
theorem get?_rankings_notifyAll (q : DeleverageQueue) (notices : List Notice) (lane : Lane) :
    (q.notifyAll notices).rankings.get? lane =
      (notices.filter (·.lane = lane)).foldl Notice.revise (q.rankings.get? lane) := by
  induction notices generalizing q with
  | nil => rfl
  | cons notice notices ih =>
    show ((q.notify notice).notifyAll notices).rankings.get? lane = _
    rw [ih, get?_rankings_notify, List.filter_cons]
    by_cases hlane : lane = notice.lane
    · rw [if_pos hlane, if_pos (decide_eq_true hlane.symm), List.foldl_cons]
    · rw [if_neg hlane, if_neg fun h => hlane (of_decide_eq_true h).symm]

theorem notify_eq (q : DeleverageQueue) (notice : Notice) :
    q.notify notice = { q with rankings := (q.notify notice).rankings } := by
  cases notice with
  | left market id side => exact remove_eq q ⟨market, side⟩ id
  | gaining c =>
    show q.update c = { q with rankings := (q.update c).rankings }
    unfold update
    by_cases hgains : c.isProfitable = true
    · rw [if_pos hgains]
    · rw [if_neg hgains]
      exact remove_eq q c.lane c.position

/-- Notices change nothing but the rankings. -/
theorem notifyAll_eq (q : DeleverageQueue) (notices : List Notice) :
    q.notifyAll notices = { q with rankings := (q.notifyAll notices).rankings } := by
  induction notices generalizing q with
  | nil => rfl
  | cons notice notices ih =>
    show (q.notify notice).notifyAll notices
      = { q with rankings := ((q.notify notice).notifyAll notices).rankings }
    rw [ih, notify_eq]

/-- **How the lanes take turns does not matter**, only the order within each. -/
theorem notifyAll_congr (q : DeleverageQueue)
    (h : ∀ lane, notices.filter (·.lane = lane) = notices'.filter (·.lane = lane)) :
    q.notifyAll notices = q.notifyAll notices' := by
  have hrankings : (q.notifyAll notices).rankings = (q.notifyAll notices').rankings := by
    refine Table.ext_get? fun lane => ?_
    rw [get?_rankings_notifyAll, get?_rankings_notifyAll, h]
  rw [notifyAll_eq q notices, notifyAll_eq q notices', hrankings]

/-- Notices about other lanes can be read before or after. -/
theorem notifyAll_comm (q : DeleverageQueue)
    (h : ∀ notice ∈ notices, ∀ notice' ∈ notices', notice.lane ≠ notice'.lane) :
    (q.notifyAll notices).notifyAll notices' = (q.notifyAll notices').notifyAll notices := by
  have hjoined : q.notifyAll (notices ++ notices') = q.notifyAll (notices' ++ notices) := by
    refine q.notifyAll_congr fun lane => ?_
    rw [List.filter_append, List.filter_append]
    by_cases hnone : notices.filter (·.lane = lane) = []
    · rw [hnone, List.nil_append, List.append_nil]
    · obtain ⟨notice, hnotice⟩ := List.exists_mem_of_ne_nil _ hnone
      obtain ⟨hmem, hlane⟩ := List.mem_filter.1 hnotice
      have hnone' : notices'.filter (·.lane = lane) = [] :=
        List.filter_eq_nil_iff.2 fun notice' hmem' hlane' =>
          h notice hmem notice' hmem' ((of_decide_eq_true hlane).trans
            (of_decide_eq_true hlane').symm)
      rw [hnone', List.nil_append, List.append_nil]
  unfold notifyAll at hjoined ⊢
  rwa [List.foldl_append, List.foldl_append] at hjoined

end DeleverageQueue

end Clearing

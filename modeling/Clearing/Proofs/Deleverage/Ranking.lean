import Clearing.Deleverage.Queue
import Clearing.Proofs.Failure
import Clearing.Proofs.Ledger.Views

/-!
Who is a candidate after each change of a queue.

The order of a ranking says who is deleveraged first.  For the question who is a candidate at all
only its entries matter, so every lemma here is up to a permutation: putting a candidate in
replaces the one of the same position, taking a position out leaves the others, and both concern
one lane.  A notice about a position does one or the other, as the position gains or not
(`notify_spec`).
-/

namespace Clearing

open Decimal

/-! ### One ranking -/

namespace Ranking

theorem place_perm (e : Ranked) (xs : List Ranked) : (place e xs).Perm (e :: xs) := by
  induction xs with
  | nil => exact .refl _
  | cons x xs ih =>
    rw [place]
    split
    · exact .refl _
    · exact (ih.cons x).trans (.swap e x xs)

theorem candidates_remove (r : Ranking) (id : PositionId) :
    (r.remove id).candidates = r.candidates.filter (·.position ≠ id) := by
  unfold candidates remove
  rw [List.filter_map]
  rfl

/-- The candidate that is put in replaces what the ranking held of its position. -/
theorem candidates_upsert_perm (r : Ranking) (c : Candidate) :
    (r.upsert c).candidates.Perm (c :: r.candidates.filter (·.position ≠ c.position)) := by
  rw [← candidates_remove]
  unfold upsert
  cases hfound : r.ranked? c.position with
  | some old => exact (place_perm ⟨old.arrival, c⟩ _).map (·.candidate)
  | none =>
    have hnone : (r.remove c.position).order = r.order := by
      refine List.filter_eq_self.2 fun e he => ?_
      have := List.find?_eq_none.1 hfound e he
      simpa using this
    unfold candidates
    rw [hnone]
    exact (place_perm ⟨r.nextArrival, c⟩ r.order).map (·.candidate)

end Ranking

theorem DeleverageTerms.validate_eq_ok {t : DeleverageTerms} :
    t.validate = .ok () ↔ t.defect? = none := by
  unfold validate
  cases t.defect? <;> simp

/-! ### One lane of a queue -/

namespace DeleverageQueue

variable (q : DeleverageQueue)

theorem candidates_congr {q q' : DeleverageQueue} (h : q'.rankings = q.rankings) (lane : Lane) :
    q'.candidates lane = q.candidates lane := by
  unfold candidates ranking
  rw [h]

/-! Terms are apart from the rankings. -/

theorem configure_eq_ok {q next : DeleverageQueue} {market : MarketId} {terms : DeleverageTerms}
    {previous : Option DeleverageTerms} (h : q.configure market terms = .ok (previous, next)) :
    terms.defect? = none ∧
      next = { q with terms := q.terms.insert market { terms with active := true } } := by
  unfold configure at h
  rw [bind_eq_ok] at h
  obtain ⟨⟨⟩, hvalid, heq⟩ := h
  cases heq
  exact ⟨DeleverageTerms.validate_eq_ok.1 hvalid, rfl⟩

theorem toggle_eq_ok {q next : DeleverageQueue} {market : MarketId} {active : Bool}
    (h : q.toggle market = .ok (active, next)) :
    ∃ terms, q.terms? market = some terms ∧
      next = { q with terms := q.terms.insert market { terms with active := !terms.active } } := by
  unfold toggle at h
  split at h
  · cases h
    exact ⟨_, ‹_›, rfl⟩
  · cases h

theorem rankings_configure {q left : DeleverageQueue} {market : MarketId} {terms : DeleverageTerms}
    {previous : Option DeleverageTerms} (hx : q.configure market terms = .ok (previous, left)) :
    left.rankings = q.rankings := by
  obtain ⟨-, rfl⟩ := configure_eq_ok hx
  rfl

theorem rankings_toggle {q left : DeleverageQueue} {market : MarketId} {active : Bool}
    (hx : q.toggle market = .ok (active, left)) : left.rankings = q.rankings := by
  obtain ⟨terms, -, rfl⟩ := toggle_eq_ok hx
  rfl

theorem ranking_insert (lane other : Lane) (r : Ranking) :
    ranking { q with rankings := q.rankings.insert lane r } other =
      if other = lane then r else q.ranking other := by
  unfold ranking
  rw [Table.get?_insert_eq]
  split <;> rfl

theorem ranking_congr {q next : DeleverageQueue} (h : next.rankings = q.rankings) (lane : Lane) :
    next.ranking lane = q.ranking lane := by
  unfold ranking
  rw [h]

/-- Taking a position out touches nothing but the rankings. -/
theorem remove_eq (lane : Lane) (id : PositionId) :
    q.remove lane id = { q with rankings := (q.remove lane id).rankings } := by
  unfold remove
  cases q.rankings.get? lane with
  | none => rfl
  | some r => rfl

theorem ranking_remove (lane other : Lane) (id : PositionId) :
    (q.remove lane id).ranking other =
      if lane ≠ other then q.ranking other else (q.ranking other).remove id := by
  unfold remove
  cases hget : q.rankings.get? lane with
  | none =>
    dsimp only
    by_cases hlane : lane = other
    · -- A lane that is not kept has nothing to remove.
      have hempty : q.ranking other = .empty := by
        unfold ranking
        rw [← hlane, hget]
        rfl
      rw [if_neg (not_not.2 hlane), hempty]
      rfl
    · rw [if_pos hlane]
  | some r =>
    dsimp only
    rw [ranking_insert]
    by_cases hlane : lane = other
    · rw [if_pos hlane.symm, if_neg (not_not.2 hlane)]
      unfold ranking
      rw [← hlane, hget]
      rfl
    · rw [if_neg (Ne.symm hlane), if_pos hlane]

theorem ranking_update (c : Candidate) (other : Lane) :
    (q.update c).ranking other =
      if c.lane ≠ other then q.ranking other
      else if c.isProfitable then (q.ranking other).upsert c
      else (q.ranking other).remove c.position := by
  unfold update
  by_cases hgains : c.isProfitable = true
  · rw [if_pos hgains, ranking_insert]
    by_cases hlane : c.lane = other
    · rw [if_pos hlane.symm, if_neg (not_not.2 hlane), if_pos hgains, hlane]
    · rw [if_neg (Ne.symm hlane), if_pos hlane]
  · rw [if_neg hgains, ranking_remove, if_neg hgains]

theorem ranking_foldl_remove (lane other : Lane) (ids : List PositionId) :
    (ids.foldl (fun q id => q.remove lane id) q).ranking other =
      if lane ≠ other then q.ranking other else ids.foldl Ranking.remove (q.ranking other) := by
  induction ids generalizing q with
  | nil => simp
  | cons id ids ih =>
    rw [List.foldl_cons, ih, ranking_remove]
    by_cases hlane : lane = other <;> simp [hlane]

theorem candidates_remove (lane other : Lane) (id : PositionId) :
    (q.remove lane id).candidates other =
      if other = lane then (q.candidates other).filter (·.position ≠ id)
      else q.candidates other := by
  unfold candidates
  rw [ranking_remove]
  by_cases hlane : other = lane
  · rw [if_neg (not_not.2 hlane.symm), if_pos hlane, Ranking.candidates_remove]
  · rw [if_pos (Ne.symm hlane), if_neg hlane]

theorem mem_candidates_foldl_remove (lane other : Lane) (ids : List PositionId) {c : Candidate} :
    c ∈ (ids.foldl (fun q id => q.remove lane id) q).candidates other ↔
      c ∈ q.candidates other ∧ (other = lane → c.position ∉ ids) := by
  induction ids generalizing q with
  | nil => simp
  | cons id ids ih =>
    rw [List.foldl_cons, ih, candidates_remove]
    by_cases hlane : other = lane
    · simp [hlane, and_assoc]
    · simp [hlane]

theorem candidates_foldl_remove_sublist (lane other : Lane) (ids : List PositionId) :
    ((ids.foldl (fun q id => q.remove lane id) q).candidates other).Sublist
      (q.candidates other) := by
  induction ids generalizing q with
  | nil => exact .refl _
  | cons id ids ih =>
    refine (ih (q.remove lane id)).trans ?_
    rw [candidates_remove]
    split
    · exact List.filter_sublist
    · exact .refl _

/-- A position is ranked where a candidate stands for it. -/
theorem contains_iff (lane : Lane) (id : PositionId) :
    q.contains lane id = true ↔ ∃ c ∈ q.candidates lane, c.position = id := by
  unfold contains candidates Ranking.ranked? Ranking.candidates
  rw [List.find?_isSome]
  simp

end DeleverageQueue

/-! ### Notices -/

/-- A candidate shows a position as it stands, with the score that this makes. -/
structure Candidate.Shows (c : Candidate) (p : Position) : Prop where
  market : c.market = p.market
  position : c.position = p.id
  owner : c.owner = p.owner
  side : c.side = p.side
  unrealizedPnl : c.unrealizedPnl = p.unrealizedPnl
  leverage : c.leverage = p.leverage
  score : deleverageScore p.unrealizedPnl p.leverage = .ok c.score

theorem Candidate.Shows.lane {c : Candidate} {p : Position} (h : c.Shows p) : c.lane = p.lane := by
  unfold Candidate.lane Position.lane
  rw [h.market, h.side]

/-- A notice shows the position if it gains, and takes it out otherwise. -/
theorem notice_eq_ok {p : Position} {now : Instant} {notice : Notice}
    (h : p.notice now = .ok notice) :
    zero < p.unrealizedPnl ∧ (∃ c, notice = .gaining c ∧ c.Shows p) ∨
      ¬ zero < p.unrealizedPnl ∧ notice = .left p.market p.id p.side := by
  unfold Position.notice at h
  split at h
  · rename_i hgains
    simp only [Candidate.scored, bind_eq_ok, pure_eq_ok] at h
    obtain ⟨_, ⟨score, hscore, rfl⟩, rfl⟩ := h
    exact .inl ⟨of_decide_eq_true hgains, _, rfl, rfl, rfl, rfl, rfl, rfl, rfl, hscore⟩
  · rename_i hgains
    cases h
    exact .inr ⟨fun hpos => hgains (decide_eq_true hpos), rfl⟩

namespace DeleverageQueue

/-- `next` is `q` but for what one lane holds of one position. -/
structure SameBut (lane : Lane) (id : PositionId) (q next : DeleverageQueue) : Prop where
  kept : ∀ other c, (other = lane → c.position ≠ id) →
    (c ∈ next.candidates other ↔ c ∈ q.candidates other)
  once : ∀ other, ((q.candidates other).map (·.position)).Nodup →
    ((next.candidates other).map (·.position)).Nodup

theorem remove_sameBut (q : DeleverageQueue) (lane : Lane) (id : PositionId) :
    SameBut lane id q (q.remove lane id) := by
  refine ⟨fun other c hc => ?_, fun other hnodup => ?_⟩
  · rw [candidates_remove]
    by_cases hlane : other = lane
    · rw [if_pos hlane]
      simp [hc hlane]
    · rw [if_neg hlane]
  · rw [candidates_remove]
    split
    · exact hnodup.sublist (List.filter_sublist.map _)
    · exact hnodup

theorem not_mem_remove {q : DeleverageQueue} {lane : Lane} {id : PositionId} {c : Candidate}
    (hc : c ∈ (q.remove lane id).candidates lane) : c.position ≠ id := by
  rw [candidates_remove, if_pos rfl] at hc
  exact of_decide_eq_true (List.mem_filter.1 hc).2

theorem candidates_update (q : DeleverageQueue) {c : Candidate} (h : c.isProfitable = true)
    (other : Lane) :
    (q.update c).candidates other =
      if other = c.lane then ((q.ranking c.lane).upsert c).candidates
      else q.candidates other := by
  unfold update
  rw [if_pos h]
  unfold candidates
  rw [ranking_insert]
  split <;> rfl

theorem update_perm (q : DeleverageQueue) {c : Candidate} (h : c.isProfitable = true) :
    ((q.update c).candidates c.lane).Perm
      (c :: (q.candidates c.lane).filter (·.position ≠ c.position)) := by
  rw [candidates_update q h, if_pos rfl]
  exact Ranking.candidates_upsert_perm (q.ranking c.lane) c

theorem update_sameBut (q : DeleverageQueue) {c : Candidate} (h : c.isProfitable = true) :
    SameBut c.lane c.position q (q.update c) := by
  refine ⟨fun other c' hc' => ?_, fun other hnodup => ?_⟩
  · by_cases hlane : other = c.lane
    · have hne := hc' hlane
      rw [hlane, (update_perm q h).mem_iff, List.mem_cons, List.mem_filter,
        or_iff_right fun heq => hne (by rw [heq])]
      simp [hne]
    · rw [candidates_update q h, if_neg hlane]
  · by_cases hlane : other = c.lane
    · rw [hlane, ((update_perm q h).map _).nodup_iff, List.map_cons, List.nodup_cons]
      rw [hlane] at hnodup
      refine ⟨fun hmem => ?_, hnodup.sublist (List.filter_sublist.map _)⟩
      obtain ⟨c', hc', heq⟩ := List.mem_map.1 hmem
      exact of_decide_eq_true (List.mem_filter.1 hc').2 heq
    · rw [candidates_update q h, if_neg hlane]
      exact hnodup

/-- After a notice a queue holds of the position what the notice shows, and nothing else. -/
theorem notify_spec {p : Position} {now : Instant} {notice : Notice} (q : DeleverageQueue)
    (h : p.notice now = .ok notice) :
    SameBut p.lane p.id q (q.notify notice) ∧
      (∀ c ∈ (q.notify notice).candidates p.lane, c.position = p.id →
        c.Shows p ∧ zero < p.unrealizedPnl) ∧
      (zero < p.unrealizedPnl →
        ∃ c ∈ (q.notify notice).candidates p.lane, c.position = p.id) := by
  rcases notice_eq_ok h with ⟨hgains, c, rfl, hshows⟩ | ⟨hgains, rfl⟩
  · have hprofitable : c.isProfitable = true := by
      unfold Candidate.isProfitable
      rw [hshows.unrealizedPnl]
      exact decide_eq_true hgains
    have hperm := update_perm q hprofitable
    have hsame := update_sameBut q hprofitable
    rw [hshows.lane, hshows.position] at hsame
    rw [hshows.lane] at hperm
    refine ⟨hsame, fun c' hc' hid => ?_, fun _ => ⟨c, ?_, hshows.position⟩⟩
    · rcases List.mem_cons.1 (hperm.mem_iff.1 hc') with rfl | hold
      · exact ⟨hshows, hgains⟩
      · have hne := of_decide_eq_true (List.mem_filter.1 hold).2
        exact absurd (hid.trans hshows.position.symm) hne
    · exact hperm.mem_iff.2 (List.mem_cons_self ..)
  · refine ⟨remove_sameBut q p.lane p.id, fun c hc hid => ?_, fun hpos => absurd hpos hgains⟩
    exact absurd hid (not_mem_remove hc)

end DeleverageQueue

end Clearing

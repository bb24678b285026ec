import Clearing.Proofs.Deleverage.Lanes
import Clearing.Proofs.Deleverage.Order

/-!
Notices that are read again.

A candidate that is brought up to date is taken out of its lane and put back, at the arrival it had.
Where it stood just so before, it comes back to its own place: the order leaves no other one, ties
included.  So a notice that is heeded already changes nothing (`Heeds.revise_eq`), and since reading
a notice heeds it, and no notice about another position undoes that, a queue that has read notices
about different positions can read all of them again (`notifyAll_again`).
-/

namespace Clearing

/-- The position that a notice is about. -/
def Notice.position : Notice → PositionId
  | gaining candidate => candidate.position
  | left _ id _ => id

/-- The candidate that a notice puts in, if it does. -/
def Notice.shown? : Notice → Option Candidate
  | gaining candidate => if candidate.isProfitable then some candidate else none
  | left .. => none

theorem Notice.position_of_position {p : Position} {now : Instant} {notice : Notice}
    (h : p.notice now = .ok notice) : notice.position = p.id := by
  rcases notice_eq_ok h with ⟨-, c, rfl, hshows⟩ | ⟨-, rfl⟩
  · exact hshows.position
  · rfl

namespace Notice

variable {notice : Notice} {c : Candidate}

theorem shown?_eq_some (h : notice.shown? = some c) :
    notice = .gaining c ∧ c.isProfitable = true := by
  cases notice with
  | gaining candidate =>
    by_cases hgains : candidate.isProfitable = true
    · rw [shown?, if_pos hgains, Option.some.injEq] at h
      subst h
      exact ⟨rfl, hgains⟩
    · rw [shown?, if_neg hgains] at h
      cases h
  | left market id side => cases h

theorem revise_of_shown (h : notice.shown? = some c) (r : Option Ranking) :
    notice.revise r = some ((r.getD .empty).upsert c) := by
  obtain ⟨rfl, hgains⟩ := shown?_eq_some h
  exact if_pos hgains

theorem revise_of_not_shown (h : notice.shown? = none) (r : Option Ranking) :
    notice.revise r = r.map (·.remove notice.position) := by
  cases notice with
  | gaining candidate =>
    by_cases hgains : candidate.isProfitable = true
    · rw [shown?, if_pos hgains] at h
      cases h
    · exact if_neg hgains
  | left market id side => rfl

theorem position_of_shown (h : notice.shown? = some c) : c.position = notice.position := by
  obtain ⟨rfl, -⟩ := shown?_eq_some h
  rfl

theorem gains_of_shown (h : notice.shown? = some c) : .zero < c.unrealizedPnl := by
  obtain ⟨-, hgains⟩ := shown?_eq_some h
  exact of_decide_eq_true hgains

end Notice

/-- A candidate that stands as it is shown is put back where it stood. -/
theorem Ranking.Lists.upsert_of_mem {r : Ranking} {xs : List Candidate} (h : r.Lists xs)
    {c : Candidate} (hc : c ∈ r.candidates) (hgains : .zero < c.unrealizedPnl) :
    r.upsert c = r := by
  obtain ⟨entries, h⟩ := h
  obtain ⟨e, he, rfl⟩ := List.mem_map.1 hc
  have hfound : r.ranked? e.candidate.position = some e := by
    unfold ranked?
    cases hfind : r.order.find? (·.candidate.position = e.candidate.position) with
    | none => exact absurd (decide_eq_true rfl) (List.find?_eq_none.1 hfind e he)
    | some found =>
      have hposition : found.candidate.position = e.candidate.position := by
        simpa using List.find?_some hfind
      rw [List.inj_on_of_nodup_map h.order_nodup (List.mem_of_find?_eq_some hfind) he hposition]
  -- Taken out and put back, and both times the order is sorted.
  have hsplit : r.order.Perm (e :: (r.remove e.candidate.position).order) :=
    perm_cons_filter_ne (fun e : Ranked => e.candidate.position) h.order_nodup he
  have hperm : (place e (r.remove e.candidate.position).order).Perm r.order :=
    (place_perm ..).trans hsplit.symm
  have hsorted : (place e (r.remove e.candidate.position).order).Pairwise Ranked.before :=
    (h.replace hgains he rfl).sorted
  have horder := hperm.eq_of_pairwise
    (fun a b _ _ hab hba => absurd hba (Ranked.not_before_of_before hab)) hsorted h.sorted
  unfold Ranking.upsert
  rw [hfound]
  exact Ranking.ext horder rfl

namespace DeleverageQueue

/-- The candidates of a lane that may have no ranking yet. -/
def held (r : Option Ranking) : List Candidate :=
  (r.getD .empty).candidates

/-- The lane is what some list of arrivals makes it. -/
def Ordered (r : Option Ranking) : Prop :=
  ∃ xs, (r.getD .empty).Lists xs

/-- What the lane holds of the position of a notice is what the notice shows. -/
def Heeds (r : Option Ranking) (notice : Notice) : Prop :=
  (held r).filter (·.position = notice.position) = notice.shown?.toList

variable {r : Option Ranking} {notice other : Notice} {notices : List Notice}

/-! ### One notice -/

/-- A notice takes out what the lane holds of its position, and puts in what it shows. -/
theorem held_revise_perm (r : Option Ranking) (notice : Notice) :
    (held (notice.revise r)).Perm
      (notice.shown?.toList ++ (held r).filter (·.position ≠ notice.position)) := by
  cases hshown : notice.shown? with
  | some c =>
    rw [notice.revise_of_shown hshown, ← Notice.position_of_shown hshown]
    exact Ranking.candidates_upsert_perm _ c
  | none =>
    rw [notice.revise_of_not_shown hshown]
    cases r with
    | none => exact .refl _
    | some r => exact .of_eq (r.candidates_remove notice.position)

theorem Ordered.revise (h : Ordered r) (notice : Notice) : Ordered (notice.revise r) := by
  obtain ⟨xs, h⟩ := h
  cases hshown : notice.shown? with
  | some c =>
    rw [notice.revise_of_shown hshown]
    exact ⟨_, h.upsert (Notice.gains_of_shown hshown)⟩
  | none =>
    rw [notice.revise_of_not_shown hshown]
    cases r with
    | none => exact ⟨xs, h⟩
    | some r => exact ⟨_, h.remove notice.position⟩

/-- A list of at most one element is all that its permutations can be. -/
theorem eq_toList_of_perm {α : Type} {xs : List α} {x : Option α} (h : xs.Perm x.toList) :
    xs = x.toList := by
  cases x with
  | none => exact h.eq_nil
  | some x => exact List.perm_singleton.1 h

theorem filter_shown (notice : Notice) (id : PositionId) :
    notice.shown?.toList.filter (·.position = id)
      = if notice.position = id then notice.shown?.toList else [] := by
  cases hshown : notice.shown? with
  | none => split <;> rfl
  | some c =>
    rw [← Notice.position_of_shown hshown]
    by_cases hid : c.position = id <;> simp [hid]

/-- A notice that was just read is heeded. -/
theorem heeds_revise (r : Option Ranking) (notice : Notice) : Heeds (notice.revise r) notice := by
  have hperm := (held_revise_perm r notice).filter (·.position = notice.position)
  rw [List.filter_append, filter_shown, if_pos rfl, List.filter_filter] at hperm
  have hnone : (held r).filter (fun c =>
      decide (c.position = notice.position) && decide (c.position ≠ notice.position)) = [] :=
    List.filter_eq_nil_iff.2 fun c _ => by simp
  rw [hnone, List.append_nil] at hperm
  exact eq_toList_of_perm hperm

/-- A notice about another position leaves it heeded. -/
theorem Heeds.revise (h : Heeds r notice) (hne : other.position ≠ notice.position) :
    Heeds (other.revise r) notice := by
  have hperm := (held_revise_perm r other).filter (·.position = notice.position)
  rw [List.filter_append, filter_shown, if_neg hne, List.nil_append, List.filter_filter] at hperm
  have hsame : (held r).filter (fun c =>
      decide (c.position = notice.position) && decide (c.position ≠ other.position))
        = (held r).filter (·.position = notice.position) := by
    refine List.filter_congr fun c _ => ?_
    by_cases hid : c.position = notice.position
    · simp [hid, hne.symm]
    · simp [hid]
  rw [hsame, h] at hperm
  exact eq_toList_of_perm hperm

/-- **A notice that is heeded already changes nothing.** -/
theorem Heeds.revise_eq (h : Heeds r notice) (hordered : Ordered r) : notice.revise r = r := by
  obtain ⟨xs, hlists⟩ := hordered
  unfold Heeds at h
  cases hshown : notice.shown? with
  | some c =>
    have hc : c ∈ (held r).filter (·.position = notice.position) := by
      rw [h, hshown]
      exact List.mem_singleton_self c
    rw [notice.revise_of_shown hshown]
    cases r with
    | none => cases hc
    | some r =>
      have hmem : c ∈ r.candidates := (List.mem_filter.1 hc).1
      exact congrArg some (hlists.upsert_of_mem hmem (Notice.gains_of_shown hshown))
  | none =>
    rw [hshown] at h
    rw [notice.revise_of_not_shown hshown]
    cases r with
    | none => rfl
    | some r =>
      refine congrArg some (Ranking.ext (List.filter_eq_self.2 fun e he => ?_) rfl)
      have hnone := List.filter_eq_nil_iff.1 h e.candidate (List.mem_map_of_mem he)
      simpa using hnone

/-! ### Notices in turn -/

theorem Heeds.foldl (h : Heeds r notice)
    (hne : ∀ other ∈ notices, other.position ≠ notice.position) :
    Heeds (notices.foldl Notice.revise r) notice := by
  induction notices generalizing r with
  | nil => exact h
  | cons other notices ih =>
    obtain ⟨hother, hnotices⟩ := List.forall_mem_cons.1 hne
    exact ih (h.revise hother) hnotices

/-- Notices about different positions are all heeded once they are read. -/
theorem heeds_foldl (hordered : Ordered r) (hnodup : (notices.map (·.position)).Nodup) :
    Ordered (notices.foldl Notice.revise r) ∧
      ∀ notice ∈ notices, Heeds (notices.foldl Notice.revise r) notice := by
  induction notices generalizing r with
  | nil => exact ⟨hordered, List.forall_mem_nil _⟩
  | cons notice notices ih =>
    rw [List.map_cons, List.nodup_cons] at hnodup
    obtain ⟨hnew, hnodup⟩ := hnodup
    obtain ⟨hlast, hheeded⟩ := ih (hordered.revise notice) hnodup
    refine ⟨hlast, List.forall_mem_cons.2 ⟨?_, hheeded⟩⟩
    exact (heeds_revise r notice).foldl fun other hother heq =>
      hnew (List.mem_map.2 ⟨other, hother, heq⟩)

/-- Notices that are heeded change nothing. -/
theorem foldl_revise_eq (hordered : Ordered r) (hheeded : ∀ notice ∈ notices, Heeds r notice) :
    notices.foldl Notice.revise r = r := by
  induction notices with
  | nil => rfl
  | cons notice notices ih =>
    obtain ⟨hfirst, hrest⟩ := List.forall_mem_cons.1 hheeded
    rw [List.foldl_cons, hfirst.revise_eq hordered, ih hrest]

/-- **Notices about different positions can be read again.**  The queue stays as they left it, with
every candidate in its place. -/
theorem notifyAll_again {q : DeleverageQueue} (hordered : ∀ lane, ∃ xs, (q.ranking lane).Lists xs)
    (hnodup : (notices.map (·.position)).Nodup) :
    (q.notifyAll notices).notifyAll notices = q.notifyAll notices := by
  rw [notifyAll_eq (q.notifyAll notices)]
  refine DeleverageQueue.ext rfl (Table.ext_get? fun lane => ?_) rfl rfl rfl rfl rfl
  have honce : ((notices.filter (·.lane = lane)).map (·.position)).Nodup :=
    hnodup.sublist (List.filter_sublist.map _)
  obtain ⟨hlast, hheeded⟩ := heeds_foldl (hordered lane) honce
  show ((q.notifyAll notices).notifyAll notices).rankings.get? lane = _
  rw [get?_rankings_notifyAll, get?_rankings_notifyAll]
  exact foldl_revise_eq hlast hheeded

end DeleverageQueue

end Clearing

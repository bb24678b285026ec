import Clearing.Proofs.Deleverage.Ranking
import Clearing.Proofs.Ledger.Indices

/-!
What becomes of ledger and queue in an execution.

A walk touches picks and leaves every other position as it is, and a position it closes stays
closed.  So a position that it touched is closed, or it is listed as reduced and not closed; and
whichever it is, the position leaves the lane.  `Executes` says this of the whole execution.
-/

namespace Clearing

namespace DeleverageQueue

/-- What a walk has done to the ledger `l` that it started from. -/
structure Walk.Covers (l : Ledger) (picks : List (Nat × Candidate)) (w : Walk) : Prop where
  indexed : w.ledger.WellIndexed
  picked : ∀ d ∈ w.deleveraged, ∃ pick ∈ picks, pick.2.position = d.position
  untouched : ∀ id, (∀ d ∈ w.deleveraged, d.position ≠ id) →
    w.ledger.position? id = l.position? id
  closed : ∀ d ∈ w.deleveraged, d.fullyClosed = true → w.ledger.position? d.position = none

theorem Walk.Covers.take {l : Ledger} {picks : List (Nat × Candidate)} {shortfall : Shortfall}
    {schedule : MarginSchedule} {now : Instant} {w next : Walk} {pick : Nat × Candidate}
    (h : w.Covers l picks) (hpick : pick ∈ picks)
    (htake : w.take shortfall schedule now pick = .ok next) : next.Covers l picks := by
  rcases take_eq_ok htake with rfl | ⟨p, amount, price, schedule, posted, hheld, hforced, hledger,
    hlisted⟩
  · exact h
  · obtain ⟨hothers, hclosed⟩ := Ledger.position?_forceReduce h.indexed.stored hforced
    refine ⟨?_, ?_, ?_, ?_⟩
    · rw [hledger]
      exact h.indexed.change (Ledger.forceReduce_change hforced)
    · intro d hd
      rw [hlisted, List.mem_append, List.mem_singleton] at hd
      rcases hd with hd | rfl
      · exact h.picked d hd
      · exact ⟨pick, hpick, rfl⟩
    · intro id hid
      rw [hlisted] at hid
      have hne := hid _ (List.mem_append_right _ (List.mem_singleton_self _))
      rw [hledger, hothers id (Ne.symm hne)]
      exact h.untouched id fun d hd => hid d (List.mem_append_left _ hd)
    · intro d hd hfully
      rw [hlisted, List.mem_append, List.mem_singleton] at hd
      rw [hledger]
      rcases hd with hd | rfl
      · -- A position that is closed already is not the one that is reduced.
        have hnone := h.closed d hd hfully
        have hne : d.position ≠ pick.2.position := fun heq => by
          rw [heq, hheld] at hnone
          cases hnone
        rw [hothers d.position hne, hnone]
      · exact hclosed hfully

/-- What an execution does: it touches candidates of one lane, and takes out of the queue those
that it touched and those that were not open. -/
structure Executes (l : Ledger) (q : DeleverageQueue) (lane : Lane) (deleveraged : List Deleveraged)
    (next : Ledger) (left : DeleverageQueue) : Prop where
  picked : ∀ d ∈ deleveraged, ∃ c ∈ q.candidates lane, c.position = d.position
  untouched : ∀ id, (∀ d ∈ deleveraged, d.position ≠ id) → next.position? id = l.position? id
  closed : ∀ d ∈ deleveraged, d.fullyClosed = true → next.position? d.position = none
  kept : ∀ other c, c ∈ left.candidates other ↔ c ∈ q.candidates other ∧ (other = lane →
    (∀ d ∈ deleveraged, d.position ≠ c.position) ∧ c ∉ q.stale l lane)
  sublist : ∀ other, (left.candidates other).Sublist (q.candidates other)

theorem execute_executes {q left : DeleverageQueue} {l next : Ledger} {schedule : MarginSchedule}
    {shortfall : Shortfall} {now : Instant} {coverage : Coverage} (hindexed : l.WellIndexed)
    (h : q.execute l schedule shortfall now = .ok (coverage, left, next)) :
    Executes l q shortfall.lane coverage.deleveraged next left := by
  obtain ⟨terms, walk, -, -, hwalk, rfl, hdeleveraged, hrankings, -⟩ := execute_eq_ok h
  have hstart : (Walk.start l shortfall).Covers l (q.picks l terms shortfall.lane) :=
    ⟨hindexed, nofun, fun _ _ => rfl, nofun⟩
  have hcovers : walk.Covers l (q.picks l terms shortfall.lane) :=
    foldlM_invariant (fun w pick hpick w' hw htake => hw.take hpick htake) hstart hwalk
  rw [hdeleveraged]
  refine ⟨fun d hd => ?_, hcovers.untouched, hcovers.closed, fun other c => ?_, fun other => ?_⟩
  · obtain ⟨pick, hpick, hposition⟩ := hcovers.picked d hd
    exact ⟨pick.2, (mem_of_mem_picks hpick).1, hposition⟩
  · rw [candidates_congr hrankings, mem_candidates_foldl_remove]
    refine and_congr_right fun hc => forall_congr' fun hlane => ?_
    rw [List.mem_append, not_or]
    refine and_congr ?_ (not_congr ?_)
    · simp only [List.mem_map, not_exists, not_and]
    · -- Whether a candidate is stale depends on its position alone.
      subst hlane
      unfold stale
      simp only [List.mem_map, List.mem_filter]
      constructor
      · rintro ⟨c', ⟨-, hstale⟩, hposition⟩
        exact ⟨hc, hposition ▸ hstale⟩
      · exact fun hstale => ⟨c, hstale, rfl⟩
  · rw [candidates_congr hrankings]
    exact candidates_foldl_remove_sublist q shortfall.lane other _

/-! ### The terms stay -/

theorem terms_remove (q : DeleverageQueue) (lane : Lane) (id : PositionId) :
    (q.remove lane id).terms = q.terms := by
  unfold remove
  split <;> rfl

theorem terms_execute {q left : DeleverageQueue} {l next : Ledger} {schedule : MarginSchedule}
    {shortfall : Shortfall} {now : Instant} {coverage : Coverage}
    (h : q.execute l schedule shortfall now = .ok (coverage, left, next)) :
    left.terms = q.terms := by
  unfold execute at h
  simp only [bind_eq_ok, refusing_eq_ok, ite_refuse_eq_ok, pure_eq_ok, Prod.mk.injEq] at h
  obtain ⟨terms, -, -, walk, -, -, rfl, -⟩ := h
  exact List.foldlRecOn (motive := fun mid : DeleverageQueue => mid.terms = q.terms) _ _ rfl
    fun mid hmid id _ => (terms_remove mid _ id).trans hmid

end DeleverageQueue

end Clearing

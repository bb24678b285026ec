import Clearing.Proofs.Ledger.Steps

/-!
What a deleveraging has done when it succeeds.

An execution is a walk down its picks.  At each pick it leaves the ledger alone or reduces one
position by force, and `Takes` says which; nothing else that an execution does concerns the
ledger.  So whatever every forced reduction keeps, every execution keeps (`execute_invariant`).
-/

namespace Clearing

open Decimal

namespace DeleverageQueue

/-- What a pick makes of a walk: nothing, or one forced reduction and its entry in the list. -/
inductive Takes (now : Instant) (w : Walk) (pick : Nat × Candidate) (next : Walk) : Prop
  | passed (same : next = w)
  | reduced (p : Position) (amount : Decimal) (price : Price) (schedule : MarginSchedule)
      (posted : Ledger.Posted Reduction)
      (held : w.ledger.position? pick.2.position = some p)
      (forced : w.ledger.forceReduce pick.2.position amount price schedule now = .ok posted)
      (ledger : next.ledger = posted.ledger)
      (listed : next.deleveraged = w.deleveraged ++
        [⟨pick.2.position, pick.2.owner, pick.1, posted.result.sizeClosed,
          posted.result.realizedPnl, posted.result.fullyClosed⟩])

/-- While something is missing, a pick whose position is open is reduced by what is missing, up to
its size, at the price of the shortfall. -/
theorem take_of_held {shortfall : Shortfall} {schedule : MarginSchedule} {now : Instant}
    {w next : Walk} {pick : Nat × Candidate} {p : Position}
    (hp : w.ledger.position? pick.2.position = some p) (hmissing : ¬w.remaining ≤ .zero)
    (h : w.take shortfall schedule now pick = .ok next) :
    ∃ posted remaining closed,
      w.ledger.forceReduce pick.2.position (w.remaining.min p.size) shortfall.price schedule now
        = .ok posted ∧
      w.remaining.subOrStop posted.result.sizeClosed
        = (.ok remaining : Except (Failure DeleverageError) Decimal) ∧
      w.closed.addOrStop posted.result.sizeClosed
        = (.ok closed : Except (Failure DeleverageError) Decimal) ∧
      next = ⟨posted.ledger, remaining, closed, w.deleveraged ++
        [⟨pick.2.position, pick.2.owner, pick.1, posted.result.sizeClosed,
          posted.result.realizedPnl, posted.result.fullyClosed⟩]⟩ := by
  unfold Walk.take at h
  rw [if_neg hmissing, hp] at h
  simp only [bind_eq_ok, inTermsOf_eq_ok, pure_eq_ok] at h
  obtain ⟨posted, hforced, remaining, hremaining, closed, hclosed, rfl⟩ := h
  exact ⟨posted, remaining, closed, hforced, hremaining, hclosed, rfl⟩

/-- A pick is passed or reduced. -/
theorem take_forces {shortfall : Shortfall} {schedule : MarginSchedule} {now : Instant}
    {w next : Walk} {pick : Nat × Candidate}
    (h : w.take shortfall schedule now pick = .ok next) :
    next = w ∨ ∃ p posted, w.ledger.position? pick.2.position = some p ∧
      w.ledger.forceReduce pick.2.position (w.remaining.min p.size) shortfall.price schedule now
        = .ok posted ∧
      next.ledger = posted.ledger ∧
      next.deleveraged = w.deleveraged ++
        [⟨pick.2.position, pick.2.owner, pick.1, posted.result.sizeClosed,
          posted.result.realizedPnl, posted.result.fullyClosed⟩] := by
  by_cases hdone : w.remaining ≤ .zero
  · unfold Walk.take at h
    rw [if_pos hdone, pure_eq_ok] at h
    exact .inl h.symm
  cases hp : w.ledger.position? pick.2.position with
  | none =>
    unfold Walk.take at h
    rw [if_neg hdone, hp, pure_eq_ok] at h
    exact .inl h.symm
  | some p =>
    obtain ⟨posted, remaining, closed, hforced, -, -, rfl⟩ := take_of_held hp hdone h
    exact .inr ⟨p, posted, rfl, hforced, rfl, rfl⟩

theorem take_eq_ok {shortfall : Shortfall} {schedule : MarginSchedule} {now : Instant}
    {w next : Walk} {pick : Nat × Candidate}
    (h : w.take shortfall schedule now pick = .ok next) : Takes now w pick next := by
  rcases take_forces h with hsame | ⟨p, posted, hheld, hforced, hledger, hlisted⟩
  · exact .passed hsame
  · exact .reduced p _ _ _ posted hheld hforced hledger hlisted

/-- Where nothing is missing any more, the rest of the picks is passed. -/
theorem foldlM_take_of_done {shortfall : Shortfall} {schedule : MarginSchedule} {now : Instant}
    {w : Walk} (h : w.remaining ≤ .zero) (picks : List (Nat × Candidate)) :
    picks.foldlM (Walk.take shortfall schedule now) w = .ok w := by
  induction picks with
  | nil => rfl
  | cons pick picks ih =>
    have htake : w.take shortfall schedule now pick = .ok w := by
      unfold Walk.take
      rw [if_pos h]
      rfl
    rw [List.foldlM_cons, htake]
    exact ih

/-- An execution that is permitted has terms, and a size to cover. -/
theorem permit_eq_ok {q : DeleverageQueue} {shortfall : Shortfall} {now : Instant}
    {terms : DeleverageTerms} (h : q.permit shortfall now = .ok terms) :
    q.terms? shortfall.market = some terms ∧ 0 < shortfall.size.units := by
  unfold permit at h
  simp only [bind_eq_ok, ite_throw_eq_ok, pure_eq_ok] at h
  obtain ⟨found, hfound, hsize, _, -, rfl⟩ := h
  rw [le_iff_units, units_zero] at hsize
  refine ⟨?_, by omega⟩
  unfold activeTerms at hfound
  split at hfound
  · rename_i terms hterms
    cases hfound
    exact (Option.filter_eq_some_iff.1 hterms).1
  · cases hfound

/-- The lane loses those that the walk touched and those that were not open, and no other
candidate moves. -/
theorem execute_eq_ok {q left : DeleverageQueue} {l next : Ledger} {schedule : MarginSchedule}
    {shortfall : Shortfall} {now : Instant} {coverage : Coverage}
    (h : q.execute l schedule shortfall now = .ok (coverage, left, next)) :
    ∃ terms walk, q.permit shortfall now = .ok terms ∧
      q.picks l terms shortfall.lane ≠ [] ∧
      (q.picks l terms shortfall.lane).foldlM (Walk.take shortfall schedule now)
        (.start l shortfall) = .ok walk ∧
      next = walk.ledger ∧ coverage.deleveraged = walk.deleveraged ∧
      left.rankings = ((walk.deleveraged.map (·.position) ++
        (q.stale l shortfall.lane).map (·.position)).foldl
          (fun q id => q.remove shortfall.lane id) q).rankings ∧
      coverage.totalClosed = walk.closed ∧
      coverage.fullyCovered = decide (shortfall.size ≤ walk.closed) := by
  unfold execute at h
  simp only [bind_eq_ok, refusing_eq_ok, ite_refuse_eq_ok, List.isEmpty_iff, pure_eq_ok,
    Prod.mk.injEq] at h
  obtain ⟨terms, hterms, hpicks, walk, hwalk, rfl, rfl, rfl⟩ := h
  exact ⟨terms, walk, hterms, hpicks, hwalk, rfl, rfl, rfl, rfl, rfl⟩

/-- The picks of an execution are candidates whose position is open. -/
theorem mem_of_mem_picks {q : DeleverageQueue} {l : Ledger} {terms : DeleverageTerms}
    {lane : Lane} {pick : Nat × Candidate} (h : pick ∈ q.picks l terms lane) :
    pick.2 ∈ q.candidates lane ∧ l.contains pick.2.position = true := by
  have hmem := List.mem_of_mem_take (List.of_mem_zip h).2
  rwa [List.mem_filter] at hmem

/-- Whatever every forced reduction keeps, an execution keeps. -/
theorem execute_invariant {P : Ledger → Prop}
    (hforced : ∀ l id amount price schedule now posted, P l →
      l.forceReduce id amount price schedule now = .ok posted → P posted.ledger)
    {q left : DeleverageQueue} {l next : Ledger} {schedule : MarginSchedule}
    {shortfall : Shortfall} {now : Instant} {coverage : Coverage}
    (h : q.execute l schedule shortfall now = .ok (coverage, left, next)) (hl : P l) : P next := by
  obtain ⟨terms, walk, -, -, hwalk, rfl, -⟩ := execute_eq_ok h
  refine foldlM_invariant (P := fun w => P w.ledger) ?_ hl hwalk
  intro w pick _ w' hw htake
  rcases take_eq_ok htake with rfl | ⟨p, amount, price, schedule, posted, -, hforce, hledger, -⟩
  · exact hw
  · show P w'.ledger
    rw [hledger]
    exact hforced _ _ _ _ _ _ _ hw hforce

end DeleverageQueue

end Clearing

import Clearing.Proofs.Deleverage.Coverage
import Clearing.Proofs.Ledger.Unchecked

/-!
Where a deleveraging stops.

A walk keeps its two accounts without checks.  What is missing cannot fall below zero, since no more
is taken than is missing.  What was closed has no such bound: each amount is rounded off from what
is missing, so together they can come to more than was asked for, and past the largest decimal.  An
execution that stops, stops there (`execute_stopped`).
-/

namespace Clearing

open Decimal

namespace DeleverageQueue

/-- What a shortfall takes from those within reach of it adds up past the largest decimal. -/
def Overruns (q : DeleverageQueue) (l : Ledger) (shortfall : Shortfall) : Prop :=
  runningTotal 0 (amounts shortfall.size.units (q.sizesWithin l shortfall)) = none

instance (q : DeleverageQueue) (l : Ledger) (shortfall : Shortfall) :
    Decidable (q.Overruns l shortfall) :=
  inferInstanceAs (Decidable (_ = _))

/-- One scale serves for the sizes within reach and for a shortfall that fits in it. -/
def SharesScale (q : DeleverageQueue) (l : Ledger) (shortfall : Shortfall) : Prop :=
  ∃ scale ≤ maxScale, shortfall.size.scale ≤ scale ∧
    shortfall.size.units < (coeffBound * tenPow (maxScale - scale) : Nat) ∧
    ∀ p ∈ q.within l shortfall, p.size.scale ≤ scale

theorem SharesScale.not_overruns {q : DeleverageQueue} {l : Ledger} {shortfall : Shortfall}
    (h : q.SharesScale l shortfall) (hrange : l.InRange) : ¬ q.Overruns l shortfall := by
  obtain ⟨scale, hscale, hshortfall, hfits, hsizes⟩ := h
  unfold Overruns
  rcases Int.le_total shortfall.size.units 0 with hnothing | hnonneg
  · rw [amounts_of_nonpos hnothing]
    exact Option.some_ne_none _
  · have hsame : q.sizesWithin l shortfall
        = ((q.within l shortfall).map (·.size)).map units := by
      rw [List.map_map]
      rfl
    have hall : ∀ size ∈ (q.within l shortfall).map (·.size),
        0 ≤ size.units ∧ size.scale ≤ scale := by
      intro size hsize
      obtain ⟨p, hp, rfl⟩ := List.mem_map.1 hsize
      obtain ⟨id, hheld⟩ := exists_of_mem_within hp
      have hpos := zero_lt_iff.1 (hrange.positions id p hheld).size_pos
      exact ⟨Int.le_of_lt hpos, hsizes p hp⟩
    rw [Int.natCast_mul] at hfits
    rw [hsame, (balances_of_scale hscale hshortfall hnonneg hfits hall).1]
    exact Option.some_ne_none _

section walk

variable {shortfall : Shortfall} {schedule : MarginSchedule} {now : Instant} {w : Walk} {s : Stop}

/-- A pick stops a walk only where the total of what was closed has no decimal. -/
theorem take_stopped {pick : Nat × Candidate} (hrange : w.ledger.InRange)
    (h : w.take shortfall schedule now pick = .error (.stopped s)) :
    s = .addition ∧
      ∃ p, w.ledger.position? pick.2.position = some p ∧
        rounded? (w.closed.units + min w.remaining.units p.size.units) = none := by
  unfold Walk.take at h
  split at h
  · cases h
  rename_i hmissing
  cases hp : w.ledger.position? pick.2.position with
  | none =>
    rw [hp] at h
    cases h
  | some p =>
    rw [hp] at h
    dsimp only at h
    rcases bind_eq_error.1 h with h | ⟨posted, hforced, h⟩
    · exact absurd h ((Ledger.forceReduce_neverStops hrange _ _ _ _ _).inTermsOf s)
    have hsize := zero_lt_iff.1 (hrange.positions _ p hp).size_pos
    have hremaining : 0 < w.remaining.units := by
      rw [le_iff_units, units_zero] at hmissing
      omega
    have hamount := sizeClosed_forceReduce hp (inTermsOf_eq_ok.1 hforced)
    rw [units_min, Int.min_assoc, Int.min_self] at hamount
    rcases bind_eq_error.1 h with h | ⟨remaining, -, h⟩
    · exact absurd h (neverStops_subOrStop (Int.le_of_lt hremaining) (by omega) s)
    · rcases bind_eq_error.1 h with h | ⟨closed, -, h⟩
      · obtain ⟨hs, hnone⟩ := addOrStop_eq_stopped.1 h
        exact ⟨hs, p, rfl, hamount ▸ hnone⟩
      · cases h

theorem walk_stopped {picks : List (Nat × Candidate)} (hrange : w.ledger.InRange)
    (hpicks : Picked w.ledger picks)
    (h : picks.foldlM (Walk.take shortfall schedule now) w = .error (.stopped s)) :
    s = .addition ∧
      runningTotal w.closed.units (amounts w.remaining.units (sizesOf w.ledger picks)) = none := by
  induction picks generalizing w with
  | nil => cases h
  | cons pick picks ih =>
    have hmissing : ¬w.remaining ≤ .zero := by
      intro hdone
      rw [foldlM_take_of_done hdone] at h
      cases h
    have hpos : 0 < w.remaining.units := by
      rw [le_iff_units, units_zero] at hmissing
      omega
    rw [List.foldlM_cons] at h
    obtain ⟨p, hp⟩ := hpicks.held pick (List.mem_cons_self ..)
    rw [sizesOf_cons hp, amounts_cons hpos, runningTotal]
    rcases bind_eq_error.1 h with htake | ⟨next, htake, h⟩
    · obtain ⟨hs, p', hp', hnone⟩ := take_stopped hrange htake
      obtain rfl : p' = p := Option.some.inj (hp'.symm.trans hp)
      rw [hnone]
      exact ⟨hs, rfl⟩
    · obtain ⟨d, hturn⟩ := take_turn hp hmissing htake
      obtain ⟨_, _, _, _, posted, hforced, hledger⟩ := hturn.forced
      have hrange' : next.ledger.InRange :=
        hledger ▸ hrange.forceReduce hpicks.indexed.stored hforced
      obtain ⟨hs, hnone⟩ := ih hrange' (hturn.later hpicks) h
      rw [hturn.sizesOf_later hpicks] at hnone
      rw [hturn.closed, nearest_of_rounded? hturn.remaining]
      exact ⟨hs, hnone⟩

end walk

/-- **Where an execution stops.** -/
theorem execute_stopped {q : DeleverageQueue} {l : Ledger} {schedule : MarginSchedule}
    {shortfall : Shortfall} {now : Instant} {s : Stop} (hrange : l.InRange)
    (hindexed : l.WellIndexed)
    (honce : ((q.candidates shortfall.lane).map (·.position)).Nodup)
    (h : q.execute l schedule shortfall now = .error (.stopped s)) :
    s = .addition ∧ q.Overruns l shortfall := by
  unfold execute at h
  rcases bind_eq_error.1 h with h | ⟨terms, hpermit, h⟩
  · exact absurd h (NeverStops.refusing s)
  obtain ⟨hterms, -⟩ := permit_eq_ok (refusing_eq_ok.1 hpermit)
  dsimp only at h
  split at h
  · cases h
  rcases bind_eq_error.1 h with hwalk | ⟨walk, -, h⟩
  · obtain ⟨hs, hnone⟩ :=
      walk_stopped (w := .start l shortfall) hrange (picked_picks hindexed honce terms) hwalk
    have hclosed : (Walk.start l shortfall).closed.units = 0 := units_zero
    rw [hclosed] at hnone
    unfold Overruns
    rw [← sizes_of_picks hterms]
    exact ⟨hs, hnone⟩
  · cases h

/-- An execution that succeeds took no more than fits a decimal. -/
theorem not_overruns_of_execute {q left : DeleverageQueue} {l next : Ledger}
    {schedule : MarginSchedule} {shortfall : Shortfall} {now : Instant} {coverage : Coverage}
    (hindexed : l.WellIndexed) (honce : ((q.candidates shortfall.lane).map (·.position)).Nodup)
    (h : q.execute l schedule shortfall now = .ok (coverage, left, next)) :
    ¬ q.Overruns l shortfall := by
  obtain ⟨htaken, htotal, -⟩ := execute_accounts hindexed honce h
  unfold Overruns
  rw [← htaken, htotal]
  exact Option.some_ne_none _

end DeleverageQueue

end Clearing

import Clearing.Position.Portfolio
import Clearing.Proofs.Failure

/-!
What a portfolio depends on.

A rollup adds up positions one by one, and of each it reads the stake: collateral, gain, size and
entry price.  So positions with the same stakes in the same order roll up alike, and the moment of
the rollup shows in its date only.
-/

namespace Clearing

/-- What a portfolio reads of a position. -/
structure Position.Stake where
  collateral : Amount
  unrealizedPnl : Amount
  size : Decimal
  entryPrice : Price

/-- The part of a position that a portfolio reads. -/
def Position.stake (p : Position) : Position.Stake :=
  ⟨p.collateral, p.unrealizedPnl, p.size, p.entryPrice⟩

namespace Portfolio

/-- The rollup of an owner without positions. -/
def bare (owner : AccountId) (now : Instant) : Portfolio :=
  ⟨owner, .zero, .zero, .greatest, 0, now⟩

variable {owner : AccountId} {positions others : List Position} {now : Instant} {p : Portfolio}

theorem add_congr (t : Totals) {p p' : Position} (h : p.stake = p'.stake) :
    t.add p = t.add p' := by
  obtain ⟨hcollateral, hpnl, hsize, hentry⟩ := Position.Stake.mk.inj h
  unfold Totals.add Position.notional
  rw [hcollateral, hpnl, hsize, hentry]

theorem totals_congr (h : positions.map Position.stake = others.map Position.stake) :
    totals positions = totals others := by
  unfold totals
  generalize (⟨.zero, .zero, .zero, 0⟩ : Totals) = t
  induction positions generalizing others t with
  | nil => rw [List.map_eq_nil_iff.1 h.symm]
  | cons p rest ih =>
    obtain ⟨p', rest', rfl, hfirst, hrest⟩ := List.map_eq_cons_iff.1 h.symm
    rw [List.foldlM_cons, List.foldlM_cons, add_congr t hfirst.symm]
    congr 1
    funext next
    exact ih hrest.symm next

/-- Positions with the same stakes in the same order roll up alike. -/
theorem ofPositions_congr (h : positions.map Position.stake = others.map Position.stake) :
    ofPositions owner positions now = ofPositions owner others now := by
  unfold ofPositions
  rw [totals_congr h]

/-- A rollup made at another time differs by its date. -/
theorem ofPositions_at (h : ofPositions owner positions now = .ok p) (later : Instant) :
    ofPositions owner positions later = .ok { p with updatedAt := later } := by
  unfold ofPositions at *
  simp only [bind_eq_ok, pure_eq_ok] at *
  obtain ⟨t, ht, equity, hequity, rfl⟩ := h
  exact ⟨t, ht, equity, hequity, rfl⟩

theorem owner_of_ofPositions (h : ofPositions owner positions now = .ok p) : p.owner = owner := by
  unfold ofPositions at h
  simp only [bind_eq_ok, pure_eq_ok] at h
  obtain ⟨t, -, equity, -, rfl⟩ := h
  rfl

theorem ofPositions_nil : ofPositions owner [] now = .ok (bare owner now) := rfl

end Portfolio

end Clearing

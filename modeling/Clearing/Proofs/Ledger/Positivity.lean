import Clearing.Proofs.Ledger.Portfolios
import Clearing.Proofs.Ledger.Unchecked

/-!
What stays above zero.

A position that is open has a size, some collateral and an entry price, however small the numbers
are that it is formed from; and neither side of a market is ever owed less than nothing.

Main statement: `run_positive`.
-/

namespace Clearing

open Decimal

/-- Size, collateral and entry price are above zero. -/
structure Position.Positive (p : Position) : Prop where
  size_pos : zero < p.size
  collateral_pos : zero < p.collateral
  entryPrice_pos : zero < p.entryPrice

/-- What is upheld stays positive. -/
theorem Position.Upholds.positive {p current : Position} (h : p.Upholds current)
    (hcurrent : current.Positive) : p.Positive where
  size_pos := h.size_pos hcurrent.size_pos
  collateral_pos := h.collateral_pos hcurrent.collateral_pos
  entryPrice_pos := by
    rcases h.entryPrice with hsame | hpos
    · rw [hsame]
      exact hcurrent.entryPrice_pos
    · exact hpos

namespace Ledger

variable {l next : Ledger} {id : PositionId} {price : Price} {schedule : MarginSchedule}
  {now : Instant}

/-- An accepted change leaves a position under the number. -/
theorem exists_of_modify {sizeDelta : Decimal} {collateralDelta : Amount} {posted : Posted Amount}
    (hstored : l.Stored)
    (h : l.modify id sizeDelta collateralDelta price schedule now = .ok posted) :
    ∃ p, posted.ledger.position? id = some p := by
  obtain ⟨current, p, notice, hheld, hsame, -, -, hamends⟩ := modify_eq_ok h
  have hid := (Position.id_eq_of_identity hsame).trans (hstored id current hheld)
  exact ⟨p, by rw [hamends.position?, if_pos hid.symm]⟩

/-- A forced reduction that does not close leaves a position under the number. -/
theorem exists_of_forceReduce {amount : Decimal} {posted : Posted Reduction} (hstored : l.Stored)
    (h : l.forceReduce id amount price schedule now = .ok posted)
    (hpart : posted.result.fullyClosed = false) :
    ∃ p, posted.ledger.position? id = some p := by
  obtain ⟨current, hheld, ⟨-, hwhole, -⟩ | ⟨-, -, p, notice, hsame, -, hamends⟩⟩ :=
    forceReduce_eq_ok h
  · rw [hpart] at hwhole
    cases hwhole
  · have hid := (Position.id_eq_of_identity hsame).trans (hstored id current hheld)
    exact ⟨p, by rw [hamends.position?, if_pos hid.symm]⟩

/-- **Nothing is rounded away.**  In every ledger that priced orders and any other operations lead
to, deleveraging among them, each position has a size, a collateral and an entry price above zero,
and no side of open interest is below zero.  An accepted change of a position, and a forced
reduction that does not close it, leave it that way. -/
theorem run_positive {first : Nat} {ops : List Operation} {replies : List (Except Refusal Reply)}
    (hpriced : ∀ op ∈ ops, op.Priced)
    (hrun : (Ledger.startingAt first).run ops = .ok (replies, l)) :
    (∀ id p, l.position? id = some p → p.Positive) ∧
      (∀ market side, zero ≤ (l.openInterest market).onSide side) ∧
      (∀ id sizeDelta collateralDelta price schedule now posted,
        l.modify id sizeDelta collateralDelta price schedule now = .ok posted →
        ∃ p, posted.ledger.position? id = some p ∧ p.Positive) ∧
      ∀ id amount price schedule now posted,
        l.forceReduce id amount price schedule now = .ok posted →
        posted.result.fullyClosed = false →
        ∃ p, posted.ledger.position? id = some p ∧ p.Positive := by
  have hpositive : ∀ id p, l.position? id = some p → p.Positive := by
    refine run_positions (fun p order schedule now hpriced hentry hsize hcollateral => ?_)
      (fun p current hcurrent hupholds => hupholds.positive hcurrent) (fun _ _ h => by cases h)
      (.startingAt first) hpriced hrun
    exact ⟨hsize, hcollateral, hentry ▸ hpriced order.entryPrice rfl⟩
  have hstored := ((Sound.startingAt first).run hrun).indexed.stored
  -- What is still there after a step stood under the same number before it.
  have hstep : ∀ {next : Ledger} {id p}, l.Upholds next → next.position? id = some p →
      p.Positive := by
    intro next id p hupholds hp
    obtain ⟨current, hcurrent, hp⟩ := hupholds id p hp
    exact hp.positive (hpositive id current hcurrent)
  refine ⟨hpositive, fun market side => ?_, ?_, ?_⟩
  · rw [le_iff_units, units_zero]
    exact openInterest_nonneg hrun market side
  · intro id sizeDelta collateralDelta price schedule now posted hx
    obtain ⟨p, hp⟩ := exists_of_modify hstored hx
    exact ⟨p, hp, hstep (modify_upholds hstored hx) hp⟩
  · intro id amount price schedule now posted hx hpart
    obtain ⟨p, hp⟩ := exists_of_forceReduce hstored hx hpart
    exact ⟨p, hp, hstep (forceReduce_upholds hstored hx) hp⟩

/-- So many units of the last place. -/
def slivers (n : Nat) : Decimal :=
  (ofParts? false n 28).getD .zero

/-- Positions of a few units of the last place: one is added to, above its price, and taken from in
turn, by its owner and by force; the last of its collateral cannot be withdrawn. -/
def sampleSlivers : List Operation :=
  [.openPosition ⟨⟨1⟩, ⟨1⟩, .long, slivers 3, slivers 2, slivers 1, ⟨5⟩⟩ twoMarkets .epoch,
    .openPosition ⟨⟨2⟩, ⟨1⟩, .short, slivers 1, slivers 1, slivers 1, ⟨5⟩⟩ twoMarkets .epoch,
    .openPosition ⟨⟨3⟩, ⟨1⟩, .long, slivers 3, slivers 1, slivers 1, ⟨5⟩⟩ twoMarkets .epoch,
    .modify ⟨1⟩ (slivers 1) .zero (slivers 3) twoMarkets .epoch,
    .modify ⟨1⟩ (-slivers 2) (-slivers 1) (slivers 1) twoMarkets .epoch,
    .deleverage twoCandidates twoMarkets ⟨⟨1⟩, ⟨9⟩, .short, slivers 1, slivers 1⟩ .epoch,
    .modify ⟨1⟩ .zero (-slivers 1) (slivers 1) twoMarkets .epoch]

/-- One unit is left of each figure of the first position, and a forced reduction of the third one
leaves it positive too. -/
theorem run_positive_slivers :
    (∀ op ∈ sampleSlivers, op.Priced) ∧ ∃ replies l posted p,
      ((startingAt 1).run sampleSlivers = .ok (replies, l) ∧
        l.forceReduce ⟨3⟩ (slivers 2) (slivers 1) twoMarkets .epoch = .ok posted) ∧
      (replies.map (·.isOk) = [true, true, true, true, true, true, false] ∧
        (l.position? ⟨1⟩).map (fun p => (p.size, p.collateral, p.entryPrice))
          = some (slivers 1, slivers 1, slivers 1)) ∧
      (∀ id p, l.position? id = some p → p.Positive) ∧
      posted.ledger.position? ⟨3⟩ = some p ∧ p.Positive := by
  have hpriced : ∀ op ∈ sampleSlivers, op.Priced := by decide
  obtain ⟨⟨replies, l⟩, hrun, htest⟩ := exists_of_succeedsWith
    (fun r : List (Except Refusal Reply) × Ledger =>
      decide (r.1.map (·.isOk) = [true, true, true, true, true, true, false] ∧
        (r.2.position? ⟨1⟩).map (fun p => (p.size, p.collateral, p.entryPrice))
          = some (slivers 1, slivers 1, slivers 1)) &&
      succeedsWith (fun posted : Posted Reduction => !posted.result.fullyClosed)
        (r.2.forceReduce ⟨3⟩ (slivers 2) (slivers 1) twoMarkets .epoch))
    (x := (startingAt 1).run sampleSlivers) (by decide +kernel)
  obtain ⟨hseen, hforced⟩ := (Bool.and_eq_true _ _).mp htest
  obtain ⟨posted, hforced, hpart⟩ := exists_of_succeedsWith _ hforced
  rw [Bool.not_eq_true'] at hpart
  obtain ⟨hpositive, -, -, hreduced⟩ := run_positive hpriced hrun
  obtain ⟨p, hp, hleft⟩ := hreduced _ _ _ _ _ posted hforced hpart
  exact ⟨hpriced, replies, l, posted, p, ⟨hrun, hforced⟩, of_decide_eq_true hseen, hpositive, hp,
    hleft⟩

end Ledger

end Clearing

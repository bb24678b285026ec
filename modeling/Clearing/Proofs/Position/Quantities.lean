import Clearing.Deleverage.Candidate
import Clearing.Position.OpenInterest
import Clearing.Position.Portfolio
import Clearing.Proofs.Decimal.Checked

/-!
Which quantities the arithmetic on positions can fail at.

An error names the quantity that could not be computed.  Each function here fails at its own few
quantities and at no others, so an error tells which part of an operation it came from.
-/

namespace Clearing

open Decimal

theorem failsAt_unrealizedPnl (side : Side) (size : Decimal) (entry mark : Price) :
    FailsAt ["unrealized pnl"] (unrealizedPnl side size entry mark) := by
  have hmul : ∀ move : Decimal, FailsAt ["unrealized pnl"] (move.mul size "unrealized pnl") :=
    fun _ => failsAt_mul (List.mem_singleton_self _)
  cases side with
  | long => exact .bind (failsAt_sub (List.mem_singleton_self _)) hmul
  | short => exact .bind (failsAt_sub (List.mem_singleton_self _)) hmul

theorem failsAt_pnlAt (p : Position) (mark : Price) :
    FailsAt ["unrealized pnl"] (p.pnlAt mark) :=
  failsAt_unrealizedPnl _ _ _ _

theorem failsAt_proportionalPnl (pnl : Amount) (reduction size : Decimal) :
    FailsAt ["proportional pnl"] (proportionalPnl pnl reduction size) :=
  .bind (failsAt_mul (List.mem_singleton_self _)) fun _ =>
    failsAt_div (List.mem_singleton_self _)

theorem failsAt_averagedEntryPrice (size : Decimal) (entry : Price) (added : Decimal)
    (fill : Price) : FailsAt ["entry averaging"] (averagedEntryPrice size entry added fill) :=
  .bind (failsAt_mul (List.mem_singleton_self _)) fun _ =>
    .bind (failsAt_mul (List.mem_singleton_self _)) fun _ =>
    .bind (failsAt_add (List.mem_singleton_self _)) fun _ =>
    .bind (failsAt_add (List.mem_singleton_self _)) fun _ =>
    .bind (failsAt_div (List.mem_singleton_self _)) fun _ => .pure _

theorem failsAt_marginFor (notional : Decimal) (rate : Bps) :
    FailsAt ["margin requirement"] (MarginTier.marginFor notional rate) :=
  .bind (failsAt_mul (List.mem_singleton_self _)) fun _ =>
    failsAt_div (List.mem_singleton_self _)

theorem failsAt_notional (p : Position) : FailsAt ["position notional"] p.notional :=
  failsAt_mul (List.mem_singleton_self _)

theorem failsAt_notice (p : Position) (now : Instant) : FailsAt ["adl score"] (p.notice now) := by
  unfold Position.notice
  refine .ite (.bind (.bind (.bind ?_ fun _ => ?_) fun _ => .pure _) fun _ => .pure _) (.ok _)
  · exact failsAt_mul (List.mem_singleton_self _)
  · exact failsAt_div (List.mem_singleton_self _)

/-- The quantities of a portfolio. -/
def Portfolio.quantities : List String :=
  ["portfolio collateral", "portfolio pnl", "position notional", "portfolio notional",
    "portfolio equity"]

theorem failsAt_ofPositions (owner : AccountId) (positions : List Position) (now : Instant) :
    FailsAt Portfolio.quantities (Portfolio.ofPositions owner positions now) := by
  refine .bind (.foldlM (fun t p => ?_) _ _) fun t => .bind (failsAt_add ?_) fun _ => .pure _
  · refine .bind (failsAt_add ?_) fun _ => .bind (failsAt_add ?_) fun _ =>
      .bind (failsAt_mul ?_) fun _ => .bind (failsAt_add ?_) fun _ => .pure _
    all_goals decide
  · decide

/-! ### Liquidation prices

Here a failure can also be a stop, which names nothing.
-/

/-- The quantities of a liquidation price. -/
def liquidationQuantities : List String :=
  ["liquidation notional", "margin requirement", "liquidation buffer"]

theorem FailsAt.of_refusing {α : Type} {qs qs' : List String} {x : Except ArithmeticError α}
    (hx : FailsAt qs x) (hqs : ∀ q ∈ qs, q ∈ qs') {e : ArithmeticError}
    (h : refusing id x = .error (.refused e)) : e.quantity ∈ qs' := by
  obtain ⟨e', he', rfl⟩ := refusing_eq_refused.1 h
  exact hqs _ (hx e' he')

theorem liquidationPrice_refused {side : Side} {size : Decimal} {entry : Price}
    {collateral : Amount} {tier : MarginTier} {e : ArithmeticError}
    (h : liquidationPrice side size entry collateral tier = .error (.refused e)) :
    e.quantity ∈ liquidationQuantities := by
  unfold liquidationPrice at h
  rcases bind_eq_error.1 h with h | ⟨notional, -, h⟩
  · exact (failsAt_mul (List.mem_singleton_self _)).of_refusing (by decide) h
  · rcases bind_eq_error.1 h with h | ⟨maintenance, -, h⟩
    · exact (failsAt_marginFor _ _).of_refusing (by decide) h
    · split at h
      · cases h
      · rcases bind_eq_error.1 h with h | ⟨buffer, -, h⟩
        · exact (failsAt_sub (List.mem_singleton_self _)).of_refusing (by decide) h
        · cases side with
          | long =>
            rcases bind_eq_error.1 h with h | ⟨price, -, h⟩
            · unfold subOrStop at h
              split at h <;> cases h
            · cases h
          | short => cases h

/-! ### Open interest -/

/-- What a change of open interest leaves on each side. -/
theorem OpenInterest.change_eq_ok {oi next : OpenInterest} {side : Side} {delta : Decimal}
    (h : oi.change side delta = .ok next) :
    rounded? ((oi.onSide side).units + delta.units) = some (next.onSide side).units ∧
      ∀ other, other ≠ side → next.onSide other = oi.onSide other := by
  unfold change at h
  simp only [bind_eq_ok, ite_throw_eq_ok] at h
  obtain ⟨sum, hsum, -, h⟩ := h
  cases side with
  | long =>
    rw [pure_eq_ok] at h
    subst h
    refine ⟨units_of_add hsum, fun other hother => ?_⟩
    cases other with
    | long => exact absurd rfl hother
    | short => rfl
  | short =>
    rw [pure_eq_ok] at h
    subst h
    refine ⟨units_of_add hsum, fun other hother => ?_⟩
    cases other with
    | long => rfl
    | short => exact absurd rfl hother

/-- A change by nothing or less raises no side of open interest. -/
theorem OpenInterest.change_le {oi next : OpenInterest} {side : Side} {delta : Decimal}
    (h : oi.change side delta = .ok next) (hdelta : delta ≤ zero) (other : Side) :
    next.onSide other ≤ oi.onSide other := by
  obtain ⟨hsum, hothers⟩ := change_eq_ok h
  rw [le_iff_units, units_zero] at hdelta
  by_cases hother : other = side
  · subst hother
    -- Rounding keeps order, and what was there is rounded to itself.
    exact le_iff_units.2 (rounded?_mono (by omega) hsum (rounded?_units (oi.onSide other)))
  · rw [hothers other hother]
    exact le_iff_units.2 (Int.le_refl _)

/-- A change of open interest takes no side below zero. -/
theorem OpenInterest.change_nonneg {oi next : OpenInterest} {side : Side} {delta : Decimal}
    (h : oi.change side delta = .ok next) (hoi : ∀ other, 0 ≤ (oi.onSide other).units)
    (other : Side) : 0 ≤ (next.onSide other).units := by
  by_cases hother : other = side
  · subst hother
    unfold change at h
    simp only [bind_eq_ok, ite_throw_eq_ok] at h
    obtain ⟨sum, -, hsign, h⟩ := h
    rw [Bool.and_eq_true, Bool.not_eq_true', ← units_neg_iff] at hsign
    cases other <;> (rw [pure_eq_ok] at h; subst h; exact Int.not_lt.1 hsign)
  · rw [(change_eq_ok h).2 other hother]
    exact hoi other

/-- Open interest is found too small only where the sum is below zero. -/
theorem OpenInterest.change_ne_underflow {oi : OpenInterest} {side : Side} {delta : Decimal}
    (h : 0 ≤ (oi.onSide side).units + delta.units) :
    oi.change side delta ≠ .error (.overflow "open interest underflow") := by
  intro herror
  unfold change at herror
  rcases bind_eq_error.1 herror with herror | ⟨sum, hsum, herror⟩
  · have hquantity : FailsAt ["open interest"] ((oi.onSide side).add delta "open interest") :=
      failsAt_add (List.mem_singleton_self _)
    exact absurd (hquantity _ herror) (by decide)
  · have hnonneg := rounded?_nonneg (units_of_add hsum) h
    have hsign : ¬ (sum.negative && !sum.isZero) = true := by
      rw [Bool.and_eq_true, Bool.not_eq_true', ← units_neg_iff]
      omega
    rw [if_neg hsign] at herror
    cases side <;> cases herror

end Clearing

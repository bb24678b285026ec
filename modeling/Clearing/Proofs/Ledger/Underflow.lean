import Clearing.Proofs.Ledger.OpenInterest

/-!
Exact open interest is never found too small.

Closing a position or taking from it takes at most its size off open interest.  Sizes are above
zero in every ledger that a run reaches, so where open interest is their exact sum it is at least
each of them, and what is left is not below zero.  Rounding keeps that, since it keeps order.
-/

namespace Clearing

open Decimal

namespace Ledger

/-- How a change of open interest is refused that would leave it below zero. -/
def underflow : LedgerError :=
  .arithmetic (.overflow "open interest underflow")

/-- Closing or reducing is never refused because open interest is found too small. -/
structure NeverUnderflows (l : Ledger) : Prop where
  close : ∀ id price now, l.close id price now ≠ .error (.refused underflow)
  forceReduce : ∀ id amount price schedule now,
    l.forceReduce id amount price schedule now ≠ .error (.refused underflow)
  modify : ∀ id sizeDelta collateralDelta price schedule now,
    l.modify id sizeDelta collateralDelta price schedule now ≠ .error (.refused underflow)

/-- Every open position has a size above zero. -/
def Sized (l : Ledger) : Prop :=
  ∀ id p, l.position? id = some p → zero < p.size

variable {l next : Ledger}

/-! ### Sizes stay above zero -/

theorem Sized.startingAt (first : Nat) : (Ledger.startingAt first).Sized :=
  fun _ _ h => by cases h

theorem Sized.opens {p : Position} {now : Instant} {notice : Notice} (h : l.Sized)
    (hopens : Opens l p now notice next) : next.Sized := by
  intro id q hq
  rw [hopens.position?] at hq
  split at hq
  · cases hq
    exact hopens.size_pos
  · exact h id q hq

theorem Sized.change (h : l.Sized) (hchange : Change l next) : next.Sized := by
  intro id q hq
  cases hchange with
  | amended held _ size_pos amends =>
    rw [amends.position?] at hq
    split at hq
    · cases hq
      exact size_pos (h _ _ held)
    · exact h id q hq
  | closed closes =>
    rw [closes.position?] at hq
    split at hq
    · cases hq
    · exact h id q hq
  | restated restates =>
    have hstanding := restates.standing id
    rw [hq, Option.map_some] at hstanding
    obtain ⟨p, hp, hsame⟩ := Option.map_eq_some_iff.1 hstanding.symm
    show zero < q.standing.2
    rw [← hsame]
    exact h id p hp

/-- A ledger in which the arguments about open interest go through. -/
structure Sound (l : Ledger) : Prop where
  indexed : l.WellIndexed
  sized : l.Sized

theorem Sound.startingAt (first : Nat) : (Ledger.startingAt first).Sound :=
  ⟨.startingAt first, .startingAt first⟩

theorem Sound.opens {p : Position} {now : Instant} {notice : Notice} (h : l.Sound)
    (hopens : Opens l p now notice next) : next.Sound :=
  ⟨h.indexed.opens hopens, h.sized.opens hopens⟩

theorem Sound.change (h : l.Sound) (hchange : Change l next) : next.Sound :=
  ⟨h.indexed.change hchange, h.sized.change hchange⟩

theorem Sound.run {ops : List Operation} {replies : List (Except Refusal Reply)}
    (h : l.Sound) (hrun : l.run ops = .ok (replies, next)) : next.Sound :=
  run_invariant (fun h => h.indexed.stored) Sound.opens Sound.change h hrun

/-! ### Open interest stays above zero

No step takes a side of open interest below zero, whatever it has drifted to.
-/

/-- No open interest is below zero. -/
def InterestNonneg (l : Ledger) : Prop :=
  ∀ market side, 0 ≤ ((l.openInterest market).onSide side).units

theorem InterestNonneg.startingAt (first : Nat) : (Ledger.startingAt first).InterestNonneg := by
  intro market side
  show 0 ≤ (OpenInterest.none.onSide side).units
  cases side <;> exact Int.le_refl 0

theorem InterestNonneg.write {market : MarketId} {side : Side} {delta : Decimal}
    {oi : OpenInterest} (h : l.InterestNonneg)
    (hchange : (l.openInterest market).change side delta = .ok oi)
    (hinterest : ∀ other,
      next.openInterest other = if other = market then oi else l.openInterest other) :
    next.InterestNonneg := by
  intro other side'
  rw [hinterest]
  split
  · exact OpenInterest.change_nonneg hchange (h market) side'
  · exact h other side'

theorem InterestNonneg.change (h : l.InterestNonneg) (hchange : Change l next) :
    next.InterestNonneg := by
  cases hchange with
  | amended _ _ _ amends =>
    obtain ⟨delta, oi, -, hoi, hinterest⟩ := amends.openInterest
    exact h.write hoi hinterest
  | closed closes =>
    obtain ⟨oi, hoi, hinterest⟩ := closes.openInterest
    exact h.write hoi hinterest
  | restated restates =>
    intro market side
    unfold openInterest
    rw [restates.openInterests]
    exact h market side

theorem InterestNonneg.opens {p : Position} {now : Instant} {notice : Notice}
    (h : l.InterestNonneg) (hopens : Opens l p now notice next) : next.InterestNonneg := by
  obtain ⟨oi, hoi, hinterest⟩ := hopens.openInterest
  exact h.write hoi hinterest

theorem InterestNonneg.run {ops : List Operation} {replies : List (Except Refusal Reply)}
    (h : l.InterestNonneg) (hindexed : l.WellIndexed) (hrun : l.run ops = .ok (replies, next)) :
    next.InterestNonneg :=
  (run_invariant (P := fun l => l.WellIndexed ∧ l.InterestNonneg) (fun h => h.1.stored)
    (fun h hopens => ⟨h.1.opens hopens, h.2.opens hopens⟩)
    (fun h hchange => ⟨h.1.change hchange, h.2.change hchange⟩) ⟨hindexed, h⟩ hrun).2

theorem openInterest_nonneg {first : Nat} {ops : List Operation}
    {replies : List (Except Refusal Reply)}
    (hrun : (Ledger.startingAt first).run ops = .ok (replies, l)) : l.InterestNonneg :=
  (InterestNonneg.startingAt first).run (.startingAt first) hrun

/-- No position is larger than the open interest that adds up all of its side. -/
theorem size_le_openInterest (hsound : l.Sound) (htracks : l.Tracks) {id : PositionId}
    {p : Position} (hp : l.position? id = some p) :
    p.size.units ≤ ((l.openInterest p.market).onSide p.side).units := by
  have hmem : p ∈ l.positionsOn p.lane := by
    refine List.mem_filter.2 ⟨mem_positions_iff.2 ⟨id, hp⟩, ?_⟩
    exact decide_eq_true rfl
  have hnonneg : ∀ n ∈ (l.positionsOn p.lane).map (·.size.units), 0 ≤ n := by
    intro n hn
    obtain ⟨q, hq, rfl⟩ := List.mem_map.1 hn
    obtain ⟨other, hother⟩ := mem_positions_iff.1 (List.mem_filter.1 hq).1
    exact Int.le_of_lt (zero_lt_iff.1 (hsound.sized other q hother))
  calc p.size.units ≤ l.sizeOn p.lane :=
        List.single_le_sum hnonneg _ (List.mem_map_of_mem hmem)
    _ = ((l.openInterest p.market).onSide p.side).units := (htracks p.lane).symm

/-! ### What an operation is refused for -/

section refusals

variable {α β : Type} {qs : List String}

theorem bind_ne_underflow {x : Attempt α} {f : α → Attempt β}
    (hx : x ≠ .error (.refused underflow))
    (hf : ∀ a, x = .ok a → f a ≠ .error (.refused underflow)) :
    x >>= f ≠ .error (.refused underflow) := by
  intro h
  rcases bind_eq_error.1 h with h | ⟨a, ha, h⟩
  · exact hx h
  · exact hf a ha h

theorem pure_ne_underflow (a : α) : (pure a : Attempt α) ≠ .error (.refused underflow) := by
  intro h
  cases h

theorem computing_ne_underflow {x : Except ArithmeticError α} (h : FailsAt qs x)
    (hq : "open interest underflow" ∉ qs) : computing x ≠ .error (.refused underflow) := by
  intro herror
  obtain ⟨e, he, hcause⟩ := refusing_eq_refused.1 herror
  cases hcause
  exact hq (h _ he)

theorem bind_computing_ne_underflow {x : Except ArithmeticError α} {f : α → Attempt β}
    (hx : FailsAt qs x) (hq : "open interest underflow" ∉ qs)
    (hf : ∀ a, x = .ok a → f a ≠ .error (.refused underflow)) :
    computing x >>= f ≠ .error (.refused underflow) :=
  bind_ne_underflow (computing_ne_underflow hx hq) fun a ha => hf a (refusing_eq_ok.1 ha)

theorem get_ne_underflow (l : Ledger) (id : PositionId) :
    l.get id ≠ .error (.refused underflow) := by
  intro h
  obtain ⟨e, he, rfl⟩ := refusing_eq_refused.1 h
  unfold find at he
  split at he <;> cases he

theorem requireInitialMargin_ne_underflow (tier : MarginTier) (notional : Decimal)
    (collateral : Amount) :
    requireInitialMargin tier notional collateral ≠ .error (.refused underflow) := by
  refine bind_computing_ne_underflow (failsAt_marginFor _ _) (by decide) fun required _ => ?_
  split <;> exact nofun

theorem resize_ne_underflow (current : Position) (sizeDelta : Decimal) (pnl : Amount)
    (price : Price) : resize current sizeDelta pnl price ≠ .error (.refused underflow) := by
  unfold resize
  split
  · dsimp only
    split
    · exact nofun
    · refine bind_computing_ne_underflow (failsAt_proportionalPnl _ _ _) (by decide)
        fun realized _ => ?_
      exact bind_computing_ne_underflow
        (failsAt_sub (List.mem_singleton_self "position size")) (by decide)
        fun _ _ => pure_ne_underflow _
  · split
    · refine bind_computing_ne_underflow (failsAt_averagedEntryPrice _ _ _ _) (by decide)
        fun entry _ => ?_
      exact bind_computing_ne_underflow
        (failsAt_add (List.mem_singleton_self "position size")) (by decide)
        fun _ _ => pure_ne_underflow _
    · exact nofun

/-- A change takes at most the size off open interest, and the size is there. -/
theorem amend_ne_underflow {current updated : Position} {mark : Price} {tier : MarginTier}
    {now : Instant} (same : updated.identity = current.identity) (hpos : zero < updated.size)
    (hle : current.size.units ≤ ((l.openInterest current.market).onSide current.side).units) :
    l.amend current updated mark tier now ≠ .error (.refused underflow) := by
  unfold amend
  refine bind_ne_underflow ?_ fun price _ => ?_
  · intro h
    obtain ⟨e, he, hcause⟩ := inTermsOf_eq_refused.1 h
    cases hcause
    exact absurd (liquidationPrice_refused he) (by decide)
  refine bind_computing_ne_underflow (failsAt_pnlAt _ _) (by decide) fun pnl _ => ?_
  refine bind_computing_ne_underflow
    (failsAt_sub (List.mem_singleton_self "open interest delta")) (by decide) fun delta hdelta => ?_
  have hround := units_of_sub hdelta
  -- Rounding keeps order, so what goes is no more than all of the size.
  have hgoes : -current.size.units ≤ delta.units := by
    rw [zero_lt_iff] at hpos
    refine rounded?_mono (show -current.size.units ≤ updated.size.units - current.size.units by
      omega) ?_ hround
    exact rounded?_of_representable (representable_units _).neg
  refine bind_ne_underflow ?_ fun oi _ => ?_
  · intro h
    obtain ⟨e, he, hcause⟩ := refusing_eq_refused.1 h
    cases hcause
    refine OpenInterest.change_ne_underflow ?_ he
    show 0 ≤ ((l.openInterest updated.market).onSide updated.side).units + delta.units
    rw [Position.market_eq_of_identity same, Position.side_eq_of_identity same]
    omega
  refine bind_computing_ne_underflow (failsAt_ofPositions _ _ _) (by decide) fun portfolio _ => ?_
  exact bind_computing_ne_underflow (failsAt_notice _ _) (by decide) fun _ _ => pure_ne_underflow _

end refusals

/-! ### No operation underflows -/

section operations

variable (hsound : l.Sound) (htracks : l.Tracks)

include hsound htracks

theorem close_ne_underflow (id : PositionId) (price : Price) (now : Instant) :
    l.close id price now ≠ .error (.refused underflow) := by
  unfold close
  refine bind_ne_underflow (get_ne_underflow l id) fun p hp => ?_
  have hle := size_le_openInterest hsound htracks (find_eq_ok.1 (refusing_eq_ok.1 hp))
  refine bind_computing_ne_underflow (failsAt_pnlAt _ _) (by decide) fun pnl _ => ?_
  refine bind_computing_ne_underflow (failsAt_add (List.mem_singleton_self "close pnl")) (by decide)
    fun realized _ => ?_
  refine bind_ne_underflow ?_ fun oi _ => ?_
  · intro h
    obtain ⟨e, he, hcause⟩ := refusing_eq_refused.1 h
    cases hcause
    refine OpenInterest.change_ne_underflow ?_ he
    rw [units_neg]
    omega
  exact bind_computing_ne_underflow (failsAt_ofPositions _ _ _) (by decide)
    fun _ _ => pure_ne_underflow _

theorem forceReduce_ne_underflow (id : PositionId) (amount : Decimal) (price : Price)
    (schedule : MarginSchedule) (now : Instant) :
    l.forceReduce id amount price schedule now ≠ .error (.refused underflow) := by
  unfold forceReduce
  dsimp only
  split
  · exact nofun
  refine bind_ne_underflow (get_ne_underflow l id) fun current hcurrent => ?_
  have hle := size_le_openInterest hsound htracks (find_eq_ok.1 (refusing_eq_ok.1 hcurrent))
  split
  · refine bind_ne_underflow (close_ne_underflow hsound htracks id price now) ?_
    exact fun _ _ => pure_ne_underflow _
  rename_i hcovers
  rw [Decimal.not_le] at hcovers
  split
  · refine bind_computing_ne_underflow (failsAt_pnlAt _ _) (by decide) fun pnl _ => ?_
    refine bind_computing_ne_underflow (failsAt_proportionalPnl _ _ _) (by decide)
      fun realized _ => ?_
    refine bind_computing_ne_underflow
      (failsAt_sub (List.mem_singleton_self "position size")) (by decide) fun size hsize => ?_
    refine bind_computing_ne_underflow
      (failsAt_add (List.mem_singleton_self "realized pnl")) (by decide) fun total _ => ?_
    refine bind_ne_underflow (amend_ne_underflow rfl
      (Decimal.sub_pos hsize hcovers) hle) ?_
    exact fun _ _ => pure_ne_underflow _
  · exact nofun

theorem modify_ne_underflow (id : PositionId) (sizeDelta : Decimal) (collateralDelta : Amount)
    (price : Price) (schedule : MarginSchedule) (now : Instant) :
    l.modify id sizeDelta collateralDelta price schedule now ≠ .error (.refused underflow) := by
  unfold modify
  refine bind_ne_underflow (get_ne_underflow l id) fun current hcurrent => ?_
  have hheld := find_eq_ok.1 (refusing_eq_ok.1 hcurrent)
  have hle := size_le_openInterest hsound htracks hheld
  dsimp only
  split
  · rename_i tier htier
    refine bind_computing_ne_underflow (failsAt_pnlAt _ _) (by decide) fun pnl _ => ?_
    refine bind_ne_underflow (resize_ne_underflow _ _ _ _) ?_
    rintro ⟨resized, realized⟩ hresize
    obtain ⟨⟨hsame, -, hpos, -⟩, -⟩ := resize_eq_ok hresize
    have hamend : ∀ collateral total,
        l.amend current { resized with collateral := collateral, realizedPnl := total } price tier
          now ≠ .error (.refused underflow) :=
      fun _ _ => amend_ne_underflow hsame (hpos (hsound.sized id current hheld)) hle
    refine bind_computing_ne_underflow
      (failsAt_add (List.mem_singleton_self "collateral")) (by decide) fun collateral _ => ?_
    dsimp only
    split
    · exact nofun
    split
    · refine bind_computing_ne_underflow (failsAt_notional _) (by decide) fun notional _ => ?_
      refine bind_ne_underflow (requireInitialMargin_ne_underflow _ _ _) ?_
      intro _ _
      refine bind_computing_ne_underflow
        (failsAt_add (List.mem_singleton_self "realized pnl")) (by decide) fun total _ => ?_
      exact bind_ne_underflow (hamend collateral total) fun _ _ => pure_ne_underflow _
    · refine bind_computing_ne_underflow
        (failsAt_add (List.mem_singleton_self "realized pnl")) (by decide) fun total _ => ?_
      exact bind_ne_underflow (hamend collateral total) fun _ _ => pure_ne_underflow _
  · exact nofun

/-- **Where open interest is exact, nothing is refused for its sake.** -/
theorem neverUnderflows : l.NeverUnderflows :=
  ⟨close_ne_underflow hsound htracks, forceReduce_ne_underflow hsound htracks,
    modify_ne_underflow hsound htracks⟩

end operations

end Ledger

end Clearing

import Clearing.Proofs.Ledger.Desk
import Clearing.Proofs.Ledger.Drift

/-!
Markets that are not active.

A market that is switched off, or was never configured, takes on nothing: no position appears in it
and none grows, and its open interest goes up on neither side (`run_dormant`).  The activity of a
market is looked at in two places only, where a position is opened and where one is asked to grow.
All other operations come out as they would if the market were active (`perform_under`).

Open interest is kept beside the sizes and rounded on its own, so it does not follow from the sizes
that it goes down.  It follows from each change, since rounding keeps order.
-/

namespace Clearing

open Decimal

namespace Ledger

variable {l mid next : Ledger} {market : MarketId} {p : Position} {now : Instant}

/-- From `l` to `next` nothing was added to a market: whoever is open in it was, and was no smaller,
and open interest is no higher on either side. -/
structure Shrinks (market : MarketId) (l next : Ledger) : Prop where
  positions : ∀ id p, next.position? id = some p → p.market = market →
    ∃ before, l.position? id = some before ∧ p.identity = before.identity ∧ p.size ≤ before.size
  openInterest : ∀ side,
    (next.openInterest market).onSide side ≤ (l.openInterest market).onSide side

namespace Shrinks

theorem refl (market : MarketId) (l : Ledger) : Shrinks market l l :=
  ⟨fun _ p hp _ => ⟨p, hp, rfl, Decimal.le_refl _⟩, fun _ => Decimal.le_refl _⟩

theorem trans (h : Shrinks market l mid) (h' : Shrinks market mid next) :
    Shrinks market l next where
  positions id p hp hmarket := by
    obtain ⟨between, hbetween, hsame, hsize⟩ := h'.positions id p hp hmarket
    obtain ⟨before, hbefore, hsame', hsize'⟩ := h.positions id between hbetween
      ((Position.market_eq_of_identity hsame).symm.trans hmarket)
    exact ⟨before, hbefore, hsame.trans hsame', Decimal.le_trans hsize hsize'⟩
  openInterest side := Decimal.le_trans (h'.openInterest side) (h.openInterest side)

end Shrinks

/-! ### One step -/

/-- An opening in another market does not show. -/
theorem Opens.shrinks {notice : Notice} (h : Opens l p now notice next)
    (hother : p.market ≠ market) : Shrinks market l next where
  positions id q hq hmarket := by
    rw [h.position?] at hq
    split at hq
    · cases hq
      exact absurd hmarket hother
    · exact ⟨q, hq, rfl, Decimal.le_refl _⟩
  openInterest side := by
    obtain ⟨oi, -, hnext⟩ := h.openInterest
    rw [hnext, if_neg hother.symm]
    exact Decimal.le_refl _

/-- Open interest of a market goes up by no change that is not above zero. -/
theorem onSide_le_of_change {target : MarketId} {side : Side} {delta : Decimal}
    {oi : OpenInterest} (hoi : (l.openInterest target).change side delta = .ok oi)
    (hnext : ∀ other,
      next.openInterest other = if other = target then oi else l.openInterest other)
    (hdelta : market = target → delta ≤ zero) (other : Side) :
    (next.openInterest market).onSide other ≤ (l.openInterest market).onSide other := by
  rw [hnext]
  by_cases htarget : market = target
  · rw [if_pos htarget, htarget]
    exact OpenInterest.change_le hoi (hdelta htarget) other
  · rw [if_neg htarget]
    exact Decimal.le_refl _

/-- A change shrinks a market unless it makes a position of the market larger. -/
theorem Amends.shrinks {id : PositionId} {current : Position} {mark : Price} {notice : Notice}
    (h : Amends l current p mark now notice next) (hstored : l.Stored)
    (hheld : l.position? id = some current) (hsame : p.identity = current.identity)
    (hsize : current.market = market → p.size ≤ current.size) : Shrinks market l next where
  positions other q hq hmarket := by
    rw [h.position?] at hq
    split at hq
    · rename_i hother
      cases hq
      have hid : p.id = id := (Position.id_eq_of_identity hsame).trans (hstored id current hheld)
      rw [hother, hid]
      exact ⟨current, hheld, hsame,
        hsize ((Position.market_eq_of_identity hsame).symm.trans hmarket)⟩
    · exact ⟨q, hq, rfl, Decimal.le_refl _⟩
  openInterest := by
    obtain ⟨delta, oi, hdelta, hoi, hnext⟩ := h.openInterest
    refine onSide_le_of_change hoi hnext fun hmarket => ?_
    have hless := hsize ((Position.market_eq_of_identity hsame).symm.trans hmarket.symm)
    rw [le_iff_units] at hless ⊢
    refine rounded?_mono ?_ (units_of_sub hdelta) (rounded?_units zero)
    rw [units_zero]
    omega

theorem Closes.shrinks {id : PositionId} (h : Closes l id p now next) (hsized : l.Sized) :
    Shrinks market l next where
  positions other q hq _ := by
    rw [h.position?] at hq
    split at hq
    · cases hq
    · exact ⟨q, hq, rfl, Decimal.le_refl _⟩
  openInterest := by
    obtain ⟨oi, hoi, hnext⟩ := h.openInterest
    refine onSide_le_of_change hoi hnext fun _ => ?_
    have hpos := zero_lt_iff.1 (hsized id p h.held)
    rw [le_iff_units, units_neg, units_zero]
    omega

theorem Restates.shrinks (h : Restates l next) : Shrinks market l next where
  positions id p hp _ := by
    have hstanding := h.standing id
    rw [hp, Option.map_some] at hstanding
    obtain ⟨before, hbefore, hsame⟩ := Option.map_eq_some_iff.1 hstanding.symm
    obtain ⟨hidentity, hsize⟩ := Prod.mk.inj hsame
    refine ⟨before, hbefore, hidentity.symm, ?_⟩
    rw [hsize]
    exact Decimal.le_refl _
  openInterest side := by
    unfold openInterest
    rw [h.openInterests]
    exact Decimal.le_refl _

/-! ### One operation -/

/-- A forced reduction shrinks every market, active or not. -/
theorem forceReduce_shrinks {id : PositionId} {amount : Decimal} {price : Price}
    {schedule : MarginSchedule} {posted : Posted Reduction} (hsound : l.Sound)
    (h : l.forceReduce id amount price schedule now = .ok posted) :
    Shrinks market l posted.ledger := by
  obtain ⟨current, hcurrent, ⟨-, -, -, hcloses⟩ | ⟨-, -, -, -, p, notice, -, hsame, -, -, heases, -,
    hamends⟩⟩ := forceReduce_terms h
  · exact hcloses.shrinks hsound.sized
  · exact hamends.shrinks hsound.indexed.stored hcurrent hsame fun _ => heases.size_le

/-- An operation that goes by a schedule in which a market is not active shrinks the market. -/
theorem answer_shrinks {op : Operation} {reply : Reply} (hsound : l.Sound)
    (hop : op.walks = false)
    (hdormant : ∀ schedule ∈ op.schedule?, schedule.activeTier? market = none)
    (h : l.answer op = .ok (reply, next)) : Shrinks market l next := by
  have hstored := hsound.indexed.stored
  cases op with
  | openPosition order schedule now =>
    obtain ⟨posted, hx, rfl, rfl⟩ := posting_eq_ok h
    obtain ⟨tier, price, notice, hactive, -, -, -, -, -, hopens⟩ := openPosition_terms hx
    refine hopens.shrinks fun hmarket => ?_
    have hnone := hdormant schedule rfl
    rw [← hmarket] at hnone
    cases hactive.symm.trans hnone
  | modify id sizeDelta collateralDelta price schedule now =>
    obtain ⟨posted, hx, rfl, rfl⟩ := posting_eq_ok h
    obtain ⟨current, -, p, notice, hheld, -, hgrows, hcontinues, -, -, -, hamends⟩ :=
      modify_terms hx
    refine hamends.shrinks hstored hheld hcontinues.identity fun hmarket => hgrows ?_
    rw [hmarket]
    exact hdormant schedule rfl
  | close id price now =>
    obtain ⟨posted, hx, rfl, rfl⟩ := posting_eq_ok h
    exact (close_eq_ok hx).2.shrinks hsound.sized
  | forceReduce id amount price schedule now =>
    obtain ⟨posted, hx, rfl, rfl⟩ := posting_eq_ok h
    exact forceReduce_shrinks hsound hx
  | refresh id mark now =>
    obtain ⟨posted, hx, rfl, rfl⟩ := posting_eq_ok h
    exact (refresh_restates hstored (refusing_eq_ok.1 hx)).shrinks
  | refreshMarket target mark now =>
    obtain ⟨posted, hx, rfl, rfl⟩ := posting_eq_ok h
    exact (refreshMarket_restates hstored (refusing_eq_ok.1 hx)).shrinks
  | applyFunding payments index now =>
    unfold answer at h
    simp only [bind_eq_ok, refusing_eq_ok, pure_eq_ok, Prod.mk.injEq] at h
    obtain ⟨_, hx, rfl, rfl⟩ := h
    exact (applyFunding_restates hx).shrinks
  | deleverage queue schedule shortfall now => cases hop

/-! ### A trail -/

/-- The market is not active in any schedule that one of the operations goes by. -/
def Dormant (market : MarketId) (ops : List Operation) : Prop :=
  ∀ op ∈ ops, ∀ schedule ∈ op.schedule?, schedule.activeTier? market = none

theorem Shrinks.spans {ops : List Operation} (hdormant : Dormant market ops) :
    Spans (Shrinks market) ops where
  refl := .refl market
  reduced := forceReduce_shrinks
  answered hmem hop hsound h := answer_shrinks hsound hop (hdormant _ hmem) h

instance : IsTrans Ledger (Shrinks market) where
  trans _ _ _ := .trans

theorem Path.shrinks {last : Ledger} {xs : List Ledger} (h : Path (Shrinks market) l xs last) :
    ∀ x ∈ l :: xs, Shrinks market x last := by
  induction h with
  | nil l => exact List.forall_mem_singleton.2 (.refl market l)
  | cons _ related _ ih =>
    exact List.forall_mem_cons.2 ⟨related.trans (ih _ (List.mem_cons_self ..)), ih⟩

/-! ### What goes on all the same -/

/-- The operation, going by another schedule. -/
def Operation.under (schedule : MarginSchedule) : Operation → Operation
  | .openPosition order _ now => .openPosition order schedule now
  | .modify id sizeDelta collateralDelta price _ now =>
    .modify id sizeDelta collateralDelta price schedule now
  | .forceReduce id amount price _ now => .forceReduce id amount price schedule now
  | .deleverage queue _ shortfall now => .deleverage queue schedule shortfall now
  | op => op

/-- The operation opens no position and asks for no more size. -/
def Operation.AddsNothing : Operation → Prop
  | .openPosition .. => False
  | .modify _ sizeDelta .. => ¬ zero < sizeDelta
  | _ => True

variable {schedule other : MarginSchedule}

/-- The margins of a tier are all that a change depends on. -/
theorem amend_congr {tier tier' : MarginTier} (hsame : tier'.margins = tier.margins)
    (current updated : Position) (mark : Price) :
    l.amend current updated mark tier' now = l.amend current updated mark tier now := by
  obtain ⟨maintenance, initial, maxLeverage, active⟩ := tier
  obtain ⟨_, _, _, active'⟩ := tier'
  cases hsame
  rfl

theorem requireInitialMargin_congr {tier tier' : MarginTier} (hsame : tier'.margins = tier.margins)
    (notional : Decimal) (collateral : Amount) :
    requireInitialMargin tier' notional collateral
      = requireInitialMargin tier notional collateral := by
  obtain ⟨maintenance, initial, maxLeverage, active⟩ := tier
  obtain ⟨_, _, _, active'⟩ := tier'
  cases hsame
  rfl

theorem forceReduce_congr (hsame : ∀ market, schedule.SameMargins other market) (id : PositionId)
    (amount : Decimal) (price : Price) :
    l.forceReduce id amount price other now = l.forceReduce id amount price schedule now := by
  unfold forceReduce
  split
  · rfl
  refine bind_congr fun current => ?_
  dsimp only
  split
  · rfl
  obtain ⟨hown, hother⟩ | ⟨tier, tier', hown, hother, hmargins⟩ := (hsame current.market).tiers
  · rw [hown, hother]
  · rw [hown, hother]
    simp only [amend_congr hmargins]

theorem modify_congr (hsame : ∀ market, schedule.SameMargins other market) {sizeDelta : Decimal}
    (hadds : ¬ zero < sizeDelta) (id : PositionId) (collateralDelta : Amount) (price : Price) :
    l.modify id sizeDelta collateralDelta price other now
      = l.modify id sizeDelta collateralDelta price schedule now := by
  unfold modify
  refine bind_congr fun current => ?_
  dsimp only
  -- Without an addition the tier is looked up whether its market is active or not.
  rw [if_neg hadds, if_neg hadds]
  obtain ⟨hown, hother⟩ | ⟨tier, tier', hown, hother, hmargins⟩ := (hsame current.market).tiers
  · rw [hown, hother]
  · rw [hown, hother]
    simp only [amend_congr hmargins, requireInitialMargin_congr hmargins]

end Ledger

namespace DeleverageQueue

variable {schedule other : MarginSchedule}

theorem execute_congr (hsame : ∀ market, schedule.SameMargins other market) (q : DeleverageQueue)
    (l : Ledger) (shortfall : Shortfall) (now : Instant) :
    q.execute l other shortfall now = q.execute l schedule shortfall now := by
  have htake : Walk.take shortfall other now = Walk.take shortfall schedule now := by
    funext w pick
    unfold Walk.take
    simp only [Ledger.forceReduce_congr hsame]
  unfold execute
  rw [htake]

end DeleverageQueue

namespace Ledger

variable {l : Ledger} {market : MarketId} {schedule other : MarginSchedule}

/-- What adds nothing goes by the margins alone. -/
theorem perform_under {op : Operation} (hop : op.AddsNothing)
    (hsame : ∀ market, schedule.SameMargins other market) :
    l.perform (op.under other) = l.perform (op.under schedule) := by
  have hanswer : l.answer (op.under other) = l.answer (op.under schedule) := by
    cases op with
    | openPosition => cases hop
    | modify => simp only [Operation.under, answer, modify_congr hsame hop]
    | forceReduce => simp only [Operation.under, answer, forceReduce_congr hsame]
    | deleverage => simp only [Operation.under, answer, DeleverageQueue.execute_congr hsame]
    | close | refresh | refreshMarket | applyFunding => rfl
  unfold perform
  rw [hanswer]

/-- **A market that is not active takes on nothing.**  Wherever a run has come to, as long as the
operations from there on go by schedules in which the market is not active, each ledger of the
trail has no position of the market that an earlier one had not, none that is larger than it was
there, and no more open interest on either side; nor has the ledger at the end.  What adds nothing
goes on: it comes out as it would if the market had not been switched off. -/
theorem run_dormant {first : Nat} {before ops : List Operation}
    {earlier : List (Except Refusal Reply)}
    (hbefore : (startingAt first).run before = .ok (earlier, l)) (hdormant : Dormant market ops) :
    (l.trail ops).Pairwise (Shrinks market) ∧
    (∀ replies last, l.run ops = .ok (replies, last) →
      ∀ between ∈ l.trail ops, Shrinks market between last) ∧
    ∀ (l : Ledger) (op : Operation) (schedule switched : MarginSchedule) (market : MarketId)
      (active : Bool), op.AddsNothing → schedule.setActive market active = .ok switched →
        l.perform (op.under switched) = l.perform (op.under schedule) := by
  have hsound := (Sound.startingAt first).run hbefore
  obtain ⟨last, hpath, hlast⟩ := (Shrinks.spans hdormant).passed hsound
  refine ⟨List.isChain_iff_pairwise.1 hpath.isChain, fun replies last' hrun => ?_,
    fun l op schedule switched market active hop hswitched => ?_⟩
  · rw [hlast replies last' hrun]
    exact hpath.shrinks
  · exact perform_under hop (MarginSchedule.sameMargins_setActive hswitched)

/-- The first of two markets is switched off. -/
def firstOff : MarginSchedule :=
  ⟨twoMarkets.tiers.insert ⟨1⟩ { MarginTier.standard with active := false }⟩

/-- Two longs of the first market. -/
def sampleHeld : List Operation :=
  [.openPosition (sampleOrder ⟨1⟩ .long (.ofUInt32 20)) twoMarkets .epoch,
    .openPosition { sampleOrder ⟨1⟩ .short .one with market := ⟨2⟩ } twoMarkets .epoch,
    .openPosition (sampleOrder ⟨2⟩ .long (.ofUInt32 30)) twoMarkets .epoch]

/-- Both ways to add to the first market are tried, then all ways to take from it; in the other
market a position is added to. -/
def sampleWindingDown : List Operation :=
  [.openPosition (sampleOrder ⟨3⟩ .short .one) firstOff .epoch,
    .modify ⟨1⟩ .one .zero (.ofUInt32 110) firstOff .epoch,
    .modify ⟨2⟩ .one .zero (.ofUInt32 100) firstOff .epoch,
    .modify ⟨1⟩ (-.one) .zero (.ofUInt32 110) firstOff .epoch,
    .forceReduce ⟨3⟩ .one (.ofUInt32 110) firstOff .epoch,
    .deleverage twoCandidates firstOff ⟨⟨1⟩, ⟨9⟩, .short, .ofUInt32 25, .ofUInt32 110⟩ .epoch,
    .close ⟨3⟩ (.ofUInt32 110) .epoch]

/-- What adds is refused, what takes is carried out, and nothing is left in the first market. -/
theorem run_dormant_woundDown :
    ∃ earlier l replies last,
      ((startingAt 1).run sampleHeld = .ok (earlier, l) ∧ Dormant ⟨1⟩ sampleWindingDown) ∧
      (l.run sampleWindingDown = .ok (replies, last) ∧
        replies.take 2 = [.error (.ledger (.marketNotConfigured ⟨1⟩)),
          .error (.ledger (.marketNotConfigured ⟨1⟩))] ∧
        (replies.drop 2).all (·.isOk) = true ∧
        (l.openInterest ⟨1⟩).long = .ofUInt32 50 ∧ (last.openInterest ⟨1⟩).long = .zero ∧
        (last.openInterest ⟨2⟩).short = .ofUInt32 2) ∧
      (l.trail sampleWindingDown).Pairwise (Shrinks ⟨1⟩) ∧ Shrinks ⟨1⟩ l last ∧
      l.perform (.forceReduce ⟨3⟩ .one (.ofUInt32 110) firstOff .epoch)
        = l.perform (.forceReduce ⟨3⟩ .one (.ofUInt32 110) twoMarkets .epoch) := by
  obtain ⟨⟨earlier, l⟩, hbefore, htest⟩ := exists_of_succeedsWith
    (fun r : List (Except Refusal Reply) × Ledger =>
      decide ((r.2.openInterest ⟨1⟩).long = .ofUInt32 50) &&
      succeedsWith (fun s : List (Except Refusal Reply) × Ledger => decide (
        s.1.take 2 = [.error (.ledger (.marketNotConfigured ⟨1⟩)),
          .error (.ledger (.marketNotConfigured ⟨1⟩))] ∧
        (s.1.drop 2).all (·.isOk) = true ∧ (s.2.openInterest ⟨1⟩).long = .zero ∧
        (s.2.openInterest ⟨2⟩).short = .ofUInt32 2)) (r.2.run sampleWindingDown))
    (x := (startingAt 1).run sampleHeld) (by decide +kernel)
  obtain ⟨hheld, htest⟩ := Bool.and_eq_true_iff.1 htest
  obtain ⟨⟨replies, last⟩, hrun, htest⟩ := exists_of_succeedsWith _ htest
  obtain ⟨hrefused, hdone, hnone, hother⟩ := of_decide_eq_true htest
  have hdormant : Dormant ⟨1⟩ sampleWindingDown := by
    unfold Dormant
    decide +kernel
  have hoff : twoMarkets.setActive ⟨1⟩ false = .ok firstOff := rfl
  obtain ⟨htrail, hlast, hunder⟩ := run_dormant hbefore hdormant
  exact ⟨earlier, l, replies, last, ⟨hbefore, hdormant⟩,
    ⟨hrun, hrefused, hdone, of_decide_eq_true hheld, hnone, hother⟩, htrail,
    hlast replies last hrun l (List.mem_cons_self ..),
    hunder l (.forceReduce ⟨3⟩ .one (.ofUInt32 110) twoMarkets .epoch) _ _ _ _ trivial hoff⟩

end Ledger

end Clearing

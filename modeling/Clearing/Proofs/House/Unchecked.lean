import Clearing.Proofs.Deleverage.Unchecked
import Clearing.Proofs.House.Candidates

/-!
Which calls can stop.

A call that stops is worse than one that is refused: what it has written by then is not taken back.
Four sums of a house are not checked.  Three of them stay in range as long as orders name prices
above zero, because everything that they are formed from stays above zero; the fourth is the total
of what a deleveraging closes.  `run_stops_iff` says of every house that a run of calls reaches that
a call stops at that total or not at all, and just where it is past the largest decimal.  That can
happen (`run_stops_overrun`), where the size that is missing has no decimals left and sizes with
decimals are taken from it.
-/

namespace Clearing

open Decimal

namespace House

/-- The entry price that a call names. -/
def Call.entryPrice? : Call → Option Price
  | .openPosition _ order => some order.entryPrice
  | _ => none

/-- An order names a price above zero.  Nothing is asked of other prices. -/
def Call.Priced (call : Call) : Prop :=
  ∀ price ∈ call.entryPrice?, zero < price

instance (call : Call) : Decidable call.Priced :=
  inferInstanceAs (Decidable (∀ price ∈ _, _))

variable {h next : House} {caller : AccountId}

/-! ### What stays in range -/

theorem Acts.inRange {call : Call} {reply : Reply} (hacts : h.Acts call reply next)
    (hindexed : h.ledger.WellIndexed) (hrange : h.ledger.InRange) (hpriced : call.Priced) :
    next.ledger.InRange := by
  cases hacts with
  | supplied => exact hrange
  | @opened caller order posted running posts =>
    obtain ⟨-, price, notice, -, -, -, -, -, -, hopens⟩ := Ledger.openPosition_terms posts
    exact hrange.opens hopens (Int.le_of_lt (zero_lt_iff.1 (hpriced order.entryPrice rfl)))
  | modified held running posts => exact hrange.modify hindexed.stored posts
  | closed nobody running notices closes => exact hrange.closes closes
  | deleveraged running executed => exact hrange.execute hindexed executed
  | refreshed running posts => exact hrange.refreshMarket hindexed.stored posts
  | settled running settles => exact hrange.settle settles
  | margined => exact hrange
  | configured => exact hrange
  | toggled => exact hrange
  | funded => exact hrange

/-- A house whose unchecked sums are formed from what they should be. -/
structure InRange (h : House) : Prop where
  synced : ∃ ts, h.Synced ts
  ledger : h.ledger.InRange

theorem Founded.inRange (hfounded : h.Founded) : h.InRange := by
  refine ⟨⟨_, hfounded.synced⟩, ?_⟩
  rw [hfounded.unused.1]
  exact .startingAt 1

theorem InRange.run {start : House} (hstart : start.InRange) {calls : List Call}
    (hpriced : ∀ call ∈ calls, call.Priced) (hrun : start.run calls = .ok h) : h.InRange := by
  refine run_invariant (P := InRange) ?_ hstart hrun
  rintro h ⟨⟨ts, hsynced⟩, hrange⟩ call hmem reply next hacts
  exact ⟨⟨_, hsynced.moves hacts.moves⟩,
    hacts.inRange hsynced.indexed hrange (hpriced call hmem)⟩

/-! ### Calls that never stop -/

theorem requireRole_neverStops {role : Role} : NeverStops (h.requireRole role caller) := by
  unfold requireRole
  split
  · exact .ok _
  · exact .refuse _

theorem requireRunning_neverStops {activity : Activity} {market : MarketId} :
    NeverStops (h.requireRunning activity market) := by
  unfold requireRunning
  split
  · exact .refuse _
  split
  · exact .refuse _
  · exact .ok _

theorem requirePrice_neverStops {market : MarketId} : NeverStops (h.requirePrice market) := by
  unfold requirePrice
  split
  · exact .ok _
  · exact .refuse _

theorem giving_eq_stopped {α : Type} {reply : α → Reply} {x : Attempt (α × House)} {s : Stop} :
    answer.giving reply x = .error (.stopped s) ↔ x = .error (.stopped s) := by
  unfold answer.giving
  cases x <;> simp [Except.map]

theorem giving_neverStops {α : Type} {reply : α → Reply} {x : Attempt (α × House)}
    (hx : NeverStops x) : NeverStops (answer.giving reply x) :=
  fun s hs => hx s (giving_eq_stopped.1 hs)

/-- A role, and then something that can only be refused. -/
theorem gated_neverStops {ε α β : Type} {role : Role} {cause : ε → HouseError} {x : Except ε α}
    {f : α → Attempt β} (hf : ∀ a, x = .ok a → NeverStops (f a)) :
    NeverStops (h.requireRole role caller >>= fun _ => refusing cause x >>= f) :=
  .bind requireRole_neverStops fun _ _ => .bind .refusing fun a ha => hf a (refusing_eq_ok.1 ha)

theorem openPosition_neverStops {order : Order} (hpriced : zero < order.entryPrice) :
    NeverStops (h.openPosition caller order) := by
  unfold openPosition
  refine .bind requireRole_neverStops fun _ _ => .bind requireRunning_neverStops fun _ _ => ?_
  have hentry := Int.le_of_lt (zero_lt_iff.1 hpriced)
  exact .bind (Ledger.openPosition_neverStops hentry _ _).inTermsOf fun _ _ => .ok _

theorem modifyPosition_neverStops (hrange : h.ledger.InRange) {id : PositionId}
    {sizeDelta : Decimal} {collateralDelta : Amount} :
    NeverStops (h.modifyPosition caller id sizeDelta collateralDelta) := by
  unfold modifyPosition
  refine .bind requireRole_neverStops fun _ _ => .bind .refusing fun before _ => ?_
  refine .bind requireRunning_neverStops fun _ _ => .bind requirePrice_neverStops fun price _ => ?_
  exact .bind (Ledger.modify_neverStops hrange _ _ _ _ _ _).inTermsOf fun _ _ => .ok _

theorem closePosition_neverStops {id : PositionId} : NeverStops (h.closePosition caller id) := by
  unfold closePosition
  refine .bind requireRole_neverStops fun _ _ => .bind .refusing fun p _ => ?_
  refine .bind requireRunning_neverStops fun _ _ => .bind requirePrice_neverStops fun price _ => ?_
  exact .bind Ledger.close_neverStops.inTermsOf fun _ _ => .ok _

theorem forceClose_neverStops {id : PositionId} {price : Price} {isLiquidation : Bool} :
    NeverStops (h.forceClose caller id price isLiquidation) := by
  unfold forceClose
  refine .bind requireRole_neverStops fun _ _ => .bind .refusing fun p _ => ?_
  refine .bind requireRunning_neverStops fun _ _ => ?_
  exact .bind Ledger.close_neverStops.inTermsOf fun _ _ => .ok _

theorem refreshMarket_neverStops {market : MarketId} :
    NeverStops (h.refreshMarket caller market) := by
  unfold refreshMarket
  refine .bind requireRole_neverStops fun _ _ => .bind requireRunning_neverStops fun _ _ => ?_
  exact .bind requirePrice_neverStops fun price _ => .bind .refusing fun _ _ => .ok _

theorem settleFunding_neverStops (hrange : h.ledger.InRange) {market : MarketId} :
    NeverStops (h.settleFunding caller market) := by
  unfold settleFunding
  refine .bind requireRole_neverStops fun _ _ => .bind requireRunning_neverStops fun _ _ => ?_
  exact .bind (FundingBook.settle_neverStops _ _ hrange _).inTermsOf fun _ _ => .ok _

/-- Nothing but a deleveraging can stop. -/
theorem answer_neverStops (hrange : h.ledger.InRange) {call : Call} (hpriced : call.Priced)
    (hother : ∀ caller shortfall, call ≠ .executeDeleverage caller shortfall) :
    NeverStops (h.answer call) := by
  cases call with
  | setTime | advanceTime | replaceRoles | replacePrices | replaceSafeguards => exact .ok _
  | openPosition caller order =>
    exact giving_neverStops (openPosition_neverStops (hpriced order.entryPrice rfl))
  | modifyPosition => exact giving_neverStops (modifyPosition_neverStops hrange)
  | closePosition => exact giving_neverStops closePosition_neverStops
  | forceClose => exact giving_neverStops forceClose_neverStops
  | executeDeleverage caller shortfall => exact absurd rfl (hother caller shortfall)
  | refreshMarket => exact giving_neverStops refreshMarket_neverStops
  | settleFunding => exact giving_neverStops (settleFunding_neverStops hrange)
  | configureMargin caller market tier =>
    change NeverStops (answer.giving (fun _ => .done) (h.configureMargin caller market tier))
    exact giving_neverStops (gated_neverStops fun _ _ => .ok _)
  | setMarketActive caller market active =>
    change NeverStops (answer.giving (fun _ => .done) (h.setMarketActive caller market active))
    exact giving_neverStops (gated_neverStops fun _ _ => .ok _)
  | configureDeleverage caller market insuranceThreshold maxPositions gracePeriod =>
    change NeverStops (answer.giving (fun _ => .done)
      (h.configureDeleverage caller market insuranceThreshold maxPositions gracePeriod))
    exact giving_neverStops (gated_neverStops fun _ _ => .ok _)
  | toggleDeleverage => exact giving_neverStops (gated_neverStops fun _ _ => .ok _)
  | configureFunding caller market terms =>
    change NeverStops (answer.giving (fun _ => .done) (h.configureFunding caller market terms))
    exact giving_neverStops (gated_neverStops fun _ _ => .ok _)

/-! ### Deleveraging -/

theorem executeDeleverage_stopped (hsynced : ∃ ts, h.Synced ts) (hrange : h.ledger.InRange)
    {shortfall : Shortfall} {s : Stop}
    (hx : h.executeDeleverage caller shortfall = .error (.stopped s)) :
    s = .addition ∧ h.queue.Overruns h.ledger shortfall := by
  obtain ⟨ts, hsynced⟩ := hsynced
  unfold executeDeleverage at hx
  rcases bind_eq_error.1 hx with hx | ⟨-, -, hx⟩
  · exact absurd hx (requireRole_neverStops s)
  rcases bind_eq_error.1 hx with hx | ⟨-, -, hx⟩
  · exact absurd hx (requireRunning_neverStops s)
  rcases bind_eq_error.1 hx with hx | ⟨executed, -, hx⟩
  · exact DeleverageQueue.execute_stopped hrange hsynced.indexed (hsynced.mirrors.once _)
      (inTermsOf_eq_stopped.1 hx)
  · cases hx

/-- **Which calls stop.**  In every house that a run of calls reaches, a call stops just where it is
a deleveraging that is not refused and overruns; and none overruns that shares a scale with the
sizes within its reach. -/
theorem run_stops_iff {start : House} (hfounded : start.Founded) {calls : List Call}
    (hpriced : ∀ call ∈ calls, call.Priced) (hrun : start.run calls = .ok h) :
    (∀ call s, call.Priced → (h.answer call = .error (.stopped s) ↔
      s = .addition ∧ (∀ cause, h.answer call ≠ .error (.refused cause)) ∧
        ∃ caller shortfall, call = .executeDeleverage caller shortfall ∧
          h.queue.Overruns h.ledger shortfall)) ∧
      ∀ shortfall, h.queue.SharesScale h.ledger shortfall →
        ¬ h.queue.Overruns h.ledger shortfall := by
  obtain ⟨⟨ts, hsynced⟩, hrange⟩ := hfounded.inRange.run hpriced hrun
  refine ⟨fun call s hcall => ⟨fun hstopped => ?_, ?_⟩,
    fun shortfall hshares => hshares.not_overruns hrange⟩
  · have hunrefused : ∀ cause, h.answer call ≠ .error (.refused cause) := by
      intro cause hrefused
      rw [hstopped] at hrefused
      cases hrefused
    by_cases hdeleverages : ∃ caller shortfall, call = .executeDeleverage caller shortfall
    · obtain ⟨caller, shortfall, rfl⟩ := hdeleverages
      obtain ⟨hs, hoverruns⟩ := executeDeleverage_stopped ⟨ts, hsynced⟩ hrange
        (giving_eq_stopped.1 hstopped)
      exact ⟨hs, hunrefused, caller, shortfall, rfl, hoverruns⟩
    · have hother : ∀ caller shortfall, call ≠ .executeDeleverage caller shortfall :=
        fun caller shortfall heq => hdeleverages ⟨caller, shortfall, heq⟩
      exact absurd hstopped (answer_neverStops hrange hcall hother s)
  · -- Had it been executed, its total would have a decimal.
    rintro ⟨rfl, hunrefused, caller, shortfall, rfl, hoverruns⟩
    cases hanswer : h.answer (.executeDeleverage caller shortfall) with
    | ok answered =>
      obtain ⟨reply, next⟩ := answered
      obtain ⟨coverage, hexecuted, -⟩ := giving_eq_ok hanswer
      exact absurd hoverruns (DeleverageQueue.not_overruns_of_execute hsynced.indexed
        (hsynced.mirrors.once _) (executeDeleverage_eq_ok hexecuted))
    | error e =>
      cases e with
      | refused cause => exact absurd hanswer (hunrefused cause)
      | stopped s =>
        rw [(executeDeleverage_stopped ⟨ts, hsynced⟩ hrange (giving_eq_stopped.1 hanswer)).1]

/-- The largest size there is, less some, which is missing after a long was liquidated. -/
def sampleMissing (less : Nat) : Shortfall :=
  ⟨⟨1⟩, ⟨9⟩, .long, (ofParts? false (coeffBound - 1 - less) 0).getD .zero,
    (ofParts? false 9 6).getD .zero⟩

/-- A short of the largest size there is, and two of 0.4, all of which gain. -/
def sampleOverrun : List Call :=
  [.configureMargin ⟨9⟩ ⟨1⟩ .standard,
    .configureDeleverage ⟨9⟩ ⟨1⟩ ⟨100⟩ 5 0,
    .openPosition ⟨9⟩ ⟨⟨1⟩, ⟨1⟩, .short, (sampleMissing 0).size,
      (ofParts? false (10 ^ 24) 0).getD .zero, (ofParts? false 1 5).getD .zero, ⟨5⟩⟩,
    .openPosition ⟨9⟩ ⟨⟨2⟩, ⟨1⟩, .short, (ofParts? false 4 1).getD .zero,
      (ofParts? false (10 ^ 25) 0).getD .zero, (ofParts? false (10 ^ 25) 0).getD .zero, ⟨5⟩⟩,
    .openPosition ⟨9⟩ ⟨⟨3⟩, ⟨1⟩, .short, (ofParts? false 4 1).getD .zero,
      (ofParts? false (10 ^ 25) 0).getD .zero, (ofParts? false (10 ^ 25) 0).getD .zero, ⟨5⟩⟩,
    .replacePrices (PriceBook.empty.setPrice ⟨1⟩ ((ofParts? false 9 6).getD .zero) .epoch),
    .refreshMarket ⟨9⟩ ⟨1⟩]

/-- Of the largest size, taking 0.4 twice rounds to nothing, and so all of it is taken after that.
The total has no decimal. -/
theorem run_stops_overrun :
    ∃ h, sampleHouse.run sampleOverrun = .ok h ∧ (∀ call ∈ sampleOverrun, call.Priced) ∧
      h.answer (.executeDeleverage ⟨9⟩ (sampleMissing 0)) = .error (.stopped .addition) := by
  obtain ⟨h, hrun, htest⟩ := exists_of_succeedsWith
    (fun h : House => failsWith (.stopped .addition)
      (h.answer (.executeDeleverage ⟨9⟩ (sampleMissing 0))))
    (x := sampleHouse.run sampleOverrun) (by decide +kernel)
  exact ⟨h, hrun, by decide +kernel, eq_error_of_failsWith htest⟩

/-- With one less to take, the total still has one. -/
theorem run_stops_iff_oneLess :
    ∃ h, sampleHouse.run sampleOverrun = .ok h ∧ (∀ call ∈ sampleOverrun, call.Priced) ∧
      ¬ h.queue.Overruns h.ledger (sampleMissing 1) ∧
      ∀ s, h.answer (.executeDeleverage ⟨9⟩ (sampleMissing 1)) ≠ .error (.stopped s) := by
  obtain ⟨h, hrun, htest⟩ := exists_of_succeedsWith
    (fun h : House => decide (¬ h.queue.Overruns h.ledger (sampleMissing 1)))
    (x := sampleHouse.run sampleOverrun) (by decide +kernel)
  have hfits := of_decide_eq_true htest
  have hpriced : ∀ call ∈ sampleOverrun, call.Priced := by decide +kernel
  refine ⟨h, hrun, hpriced, hfits, fun s hstopped => ?_⟩
  obtain ⟨-, -, caller, shortfall, hcall, hoverruns⟩ :=
    ((run_stops_iff (.empty _ _ _ _) hpriced hrun).1 _ s (by decide)).1 hstopped
  cases hcall
  exact hfits hoverruns

end House

end Clearing

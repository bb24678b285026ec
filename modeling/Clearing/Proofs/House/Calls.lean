import Clearing.House.Call
import Clearing.Proofs.Ledger.Steps
import Clearing.Proofs.Run

/-!
Accepted calls taken apart.

An accepted call has passed its gates, a component has done its part, and the journal has got the
events of it.  `Acts` says all of this for each kind of call: which market it concerned and that
this market was not halted, what the component answered, and the house that was put together from
it.  `answer_acts` reads it off the definitions once, and what is proved of a single call
afterwards is proved by the cases of `Acts`.

Each call also touches positions: those that it reports to the queue, and those that it reduces
without a report.
-/

namespace Clearing

namespace House

/-! ### Gates -/

theorem requireRunning_eq_ok {h : House} {activity : Activity} {market : MarketId} {u : Unit} :
    h.requireRunning activity market = .ok u ↔
      h.safeguards.isPaused activity = false ∧ h.safeguards.isTripped market = false := by
  unfold requireRunning
  by_cases hpaused : h.safeguards.isPaused activity = true
  · simp [hpaused]
  · by_cases htripped : h.safeguards.isTripped market = true <;> simp [hpaused, htripped]

theorem requirePosition_eq_ok {h : House} {id : PositionId} {p : Position} :
    h.requirePosition id = .ok p ↔ h.ledger.position? id = some p := by
  unfold requirePosition
  rw [refusing_eq_ok, Ledger.find_eq_ok]

/-! ### Whom a call touches -/

/-- A change of one position, as far as it matters to the queue. -/
inductive Touch where
  /-- The position was reported. -/
  | reported (position : PositionId)
  /-- A deleveraging took some of the position and reported nothing. -/
  | reduced (position : PositionId)
deriving DecidableEq

/-- The position that changed. -/
def Touch.position : Touch → PositionId
  | reported position => position
  | reduced position => position

/-- The positions that were reduced and not closed. -/
def reductions (deleveraged : List Deleveraged) : List PositionId :=
  (deleveraged.filter fun d => !d.fullyClosed).map (·.position)

/-- Whom a call touches that is answered with a reply. -/
def touchedBy (h : House) : Call → Reply → List Touch
  | .openPosition .., .opened id => [.reported id]
  | .modifyPosition _ id _ _, _ => [.reported id]
  | .refreshMarket _ market, _ => (h.ledger.idsIn market).map .reported
  | .executeDeleverage .., .covered coverage => (reductions coverage.deleveraged).map .reduced
  | _, _ => []

/-! ### What a call has done -/

/-- The open positions that an execution in a lane can turn to. -/
def exposed (h : House) (lane : Lane) : List Position :=
  (h.queue.candidates lane).filterMap fun c => h.ledger.position? c.position

/-- The events about everyone whom an execution touched. -/
def touchedEvents (h : House) (shortfall : Shortfall) (coverage : Coverage) : List Payload :=
  coverage.deleveraged.flatMap fun d =>
    deleveragedEvents shortfall coverage.execution
      ((h.exposed shortfall.lane).find? (·.id = d.position)) d

/-- What an accepted call has done to a house. -/
inductive Acts (h : House) : Call → Reply → House → Prop
  /-- The clock was set, or others put in place what is theirs. -/
  | supplied {call : Call} {reply : Reply} {now : Instant} {roles : Roles} {prices : PriceBook}
      {safeguards : Safeguards}
      (nobody : h.touchedBy call reply = [])
      (guarded : (∀ given, call ≠ .replaceSafeguards given) → safeguards = h.safeguards) :
    Acts h call reply
      { h with now := now, roles := roles, prices := prices, safeguards := safeguards }
  | opened {caller : AccountId} {order : Order} {posted : Ledger.Posted PositionId}
      (running : h.safeguards.isTripped order.market = false)
      (posts : h.ledger.openPosition order h.schedule h.now = .ok posted) :
    Acts h (.openPosition caller order) (.opened posted.result)
      (h.post order.market posted
        ((posted.ledger.position? posted.result).toList.map openedEvent))
  | modified {caller : AccountId} {id : PositionId} {sizeDelta : Decimal}
      {collateralDelta : Amount} {before : Position} {price : Price}
      {posted : Ledger.Posted Amount} (held : h.ledger.position? id = some before)
      (running : h.safeguards.isTripped before.market = false)
      (posts : h.ledger.modify id sizeDelta collateralDelta price h.schedule h.now = .ok posted) :
    Acts h (.modifyPosition caller id sizeDelta collateralDelta) (.realized posted.result)
      (h.post before.market posted
        ((posted.ledger.position? id).toList.map fun after =>
          modifiedEvent before after posted.result))
  /-- The first event tells of the closing; others may tell that it was a liquidation. -/
  | closed {call : Call} {reply : Reply} {id : PositionId} {p : Position}
      {posted : Ledger.Posted Closure} {price : Price} {realized : Amount}
      {reason : CloseReason} {liquidations : List PositionLiquidated}
      (nobody : h.touchedBy call reply = [])
      (running : h.safeguards.isTripped p.market = false)
      (notices : posted.notices = [.left p.market id p.side])
      (closes : Ledger.Closes h.ledger id p h.now posted.ledger) :
    Acts h call reply
      (h.post p.market posted
        (closedEvent p price realized reason :: liquidations.map .positionLiquidated))
  | deleveraged {caller : AccountId} {shortfall : Shortfall} {coverage : Coverage}
      {queue : DeleverageQueue} {ledger : Ledger} {triggered : DeleverageTriggered}
      (running : h.safeguards.isTripped shortfall.market = false)
      (executed : h.queue.execute h.ledger h.schedule shortfall h.now
        = .ok (coverage, queue, ledger)) :
    Acts h (.executeDeleverage caller shortfall) (.covered coverage)
      ({ h with ledger := ledger, queue := queue }.record
        (Payload.deleverageTriggered triggered :: h.touchedEvents shortfall coverage ++
          queueChanges h.queue queue shortfall.market))
  | refreshed {caller : AccountId} {market : MarketId} {refresh : Refresh} {price : Price}
      {posted : Ledger.Posted (List PositionId)}
      (running : h.safeguards.isTripped market = false)
      (posts : h.ledger.refreshMarket market price h.now = .ok posted) :
    Acts h (.refreshMarket caller market) (.refreshed refresh) (h.post market posted [])
  | settled {caller : AccountId} {market : MarketId} {settlement : FundingSettlement}
      {funding : FundingBook} {ledger : Ledger}
      (running : h.safeguards.isTripped market = false)
      (settles : h.funding.settle market h.ledger h.now = .ok (settlement, funding, ledger)) :
    Acts h (.settleFunding caller market) (.settled settlement)
      ({ h with ledger := ledger, funding := funding }.record (settlementEvents settlement))
  | margined {call : Call} {reply : Reply} {schedule : MarginSchedule} {payloads : List Payload}
      (nobody : h.touchedBy call reply = [])
      (replaces : (∃ market tier previous,
          h.schedule.install market tier = .ok (previous, schedule)) ∨
        ∃ market active, h.schedule.setActive market active = .ok schedule)
      (told : ∀ e ∈ payloads, ∃ update, e = .marginUpdated update) :
    Acts h call reply ({ h with schedule := schedule }.record payloads)
  | configured {call : Call} {reply : Reply} {market : MarketId} {terms : DeleverageTerms}
      {previous : Option DeleverageTerms} {queue : DeleverageQueue} {payloads : List Payload}
      (nobody : h.touchedBy call reply = [])
      (configures : h.queue.configure market terms = .ok (previous, queue))
      (told : ∀ e ∈ payloads, ∃ update, e = .deleverageUpdated update) :
    Acts h call reply ({ h with queue := queue }.record payloads)
  | toggled {call : Call} {reply : Reply} {market : MarketId} {active : Bool}
      {queue : DeleverageQueue} {payloads : List Payload}
      (nobody : h.touchedBy call reply = [])
      (toggles : h.queue.toggle market = .ok (active, queue))
      (told : ∀ e ∈ payloads, ∃ update, e = .deleverageUpdated update) :
    Acts h call reply ({ h with queue := queue }.record payloads)
  | funded {call : Call} {reply : Reply} {market : MarketId} {terms : FundingTerms}
      {previous : Option FundingTerms} {funding : FundingBook}
      (nobody : h.touchedBy call reply = [])
      (configures : h.funding.configure market terms h.now = .ok (previous, funding)) :
    Acts h call reply { h with funding := funding }

variable {h next : House} {caller : AccountId}

/-! ### Trading -/

theorem openPosition_acts {order : Order} {id : PositionId}
    (hx : h.openPosition caller order = .ok (id, next)) :
    Acts h (.openPosition caller order) (.opened id) next := by
  unfold openPosition at hx
  simp only [bind_eq_ok, requireRunning_eq_ok, inTermsOf_eq_ok, pure_eq_ok, Prod.mk.injEq] at hx
  obtain ⟨-, -, -, ⟨-, hrunning⟩, posted, hposted, rfl, rfl⟩ := hx
  exact .opened hrunning hposted

theorem modifyPosition_acts {id : PositionId} {sizeDelta : Decimal} {collateralDelta : Amount}
    {realized : Amount}
    (hx : h.modifyPosition caller id sizeDelta collateralDelta = .ok (realized, next)) :
    Acts h (.modifyPosition caller id sizeDelta collateralDelta) (.realized realized) next := by
  unfold modifyPosition at hx
  simp only [bind_eq_ok, requirePosition_eq_ok, requireRunning_eq_ok, inTermsOf_eq_ok,
    pure_eq_ok, Prod.mk.injEq] at hx
  obtain ⟨-, -, before, hbefore, -, ⟨-, hrunning⟩, price, -, posted, hposted, rfl, rfl⟩ := hx
  exact .modified hbefore hrunning hposted

/-- What a ledger closes is what the house found under the number. -/
theorem close_acts {call : Call} {reply : Reply} {id : PositionId} {p : Position} {price : Price}
    {posted : Ledger.Posted Closure} (hnobody : h.touchedBy call reply = [])
    (hp : h.ledger.position? id = some p) (hrunning : h.safeguards.isTripped p.market = false)
    (hposted : h.ledger.close id price h.now = .ok posted) (reason : CloseReason)
    (liquidations : List PositionLiquidated) :
    Acts h call reply (h.post p.market posted (closedEvent posted.result.position
      posted.result.exitPrice posted.result.realizedPnl reason ::
        liquidations.map .positionLiquidated)) := by
  obtain ⟨hnotices, hcloses⟩ := Ledger.close_eq_ok hposted
  have hsame : posted.result.position = p := Option.some.inj (hcloses.held.symm.trans hp)
  rw [hsame] at hnotices hcloses ⊢
  exact .closed hnobody hrunning hnotices hcloses

theorem closePosition_acts {id : PositionId} {realized : Amount}
    (hx : h.closePosition caller id = .ok (realized, next)) :
    Acts h (.closePosition caller id) (.realized realized) next := by
  unfold closePosition at hx
  simp only [bind_eq_ok, requirePosition_eq_ok, requireRunning_eq_ok, inTermsOf_eq_ok,
    pure_eq_ok, Prod.mk.injEq] at hx
  obtain ⟨-, -, p, hp, -, ⟨-, hrunning⟩, price, -, posted, hposted, rfl, rfl⟩ := hx
  exact close_acts rfl hp hrunning hposted .userClose []

theorem forceClose_acts {id : PositionId} {price : Price} {isLiquidation : Bool}
    {realized : Amount}
    (hx : h.forceClose caller id price isLiquidation = .ok (realized, next)) :
    Acts h (.forceClose caller id price isLiquidation) (.realized realized) next := by
  unfold forceClose at hx
  simp only [bind_eq_ok, requirePosition_eq_ok, requireRunning_eq_ok, inTermsOf_eq_ok,
    pure_eq_ok, Prod.mk.injEq] at hx
  obtain ⟨-, -, p, hp, -, ⟨-, hrunning⟩, posted, hposted, rfl, rfl⟩ := hx
  cases isLiquidation with
  | true => exact close_acts rfl hp hrunning hposted .liquidation [_]
  | false => exact close_acts rfl hp hrunning hposted .autoDeleverage []

theorem executeDeleverage_acts {shortfall : Shortfall} {coverage : Coverage}
    (hx : h.executeDeleverage caller shortfall = .ok (coverage, next)) :
    Acts h (.executeDeleverage caller shortfall) (.covered coverage) next := by
  unfold executeDeleverage at hx
  simp only [bind_eq_ok, requireRunning_eq_ok, inTermsOf_eq_ok, pure_eq_ok, Prod.mk.injEq] at hx
  obtain ⟨-, -, -, ⟨-, hrunning⟩, ⟨coverage', queue, ledger⟩, hexecuted, rfl, rfl⟩ := hx
  exact .deleveraged hrunning hexecuted

theorem executeDeleverage_eq_ok {shortfall : Shortfall} {coverage : Coverage}
    (hx : h.executeDeleverage caller shortfall = .ok (coverage, next)) :
    h.queue.execute h.ledger h.schedule shortfall h.now
      = .ok (coverage, next.queue, next.ledger) := by
  unfold executeDeleverage at hx
  simp only [bind_eq_ok, inTermsOf_eq_ok, pure_eq_ok, Prod.mk.injEq] at hx
  obtain ⟨-, -, -, -, ⟨coverage', queue, ledger⟩, hexecuted, rfl, rfl⟩ := hx
  exact hexecuted

/-! ### Upkeep -/

theorem refreshMarket_acts {market : MarketId} {refresh : Refresh}
    (hx : h.refreshMarket caller market = .ok (refresh, next)) :
    Acts h (.refreshMarket caller market) (.refreshed refresh) next := by
  unfold refreshMarket at hx
  simp only [bind_eq_ok, requireRunning_eq_ok, refusing_eq_ok, pure_eq_ok, Prod.mk.injEq] at hx
  obtain ⟨-, -, -, ⟨-, hrunning⟩, price, -, posted, hposted, -, rfl⟩ := hx
  exact .refreshed hrunning hposted

theorem settleFunding_acts {market : MarketId} {settlement : FundingSettlement}
    (hx : h.settleFunding caller market = .ok (settlement, next)) :
    Acts h (.settleFunding caller market) (.settled settlement) next := by
  unfold settleFunding at hx
  simp only [bind_eq_ok, requireRunning_eq_ok, inTermsOf_eq_ok, pure_eq_ok, Prod.mk.injEq] at hx
  obtain ⟨-, -, -, ⟨-, hrunning⟩, ⟨settled, funding, ledger⟩, hsettled, rfl, rfl⟩ := hx
  exact .settled hrunning hsettled

/-! ### Administration -/

theorem configureMargin_acts {market : MarketId} {tier : MarginTier}
    (hx : h.configureMargin caller market tier = .ok ((), next)) :
    Acts h (.configureMargin caller market tier) .done next := by
  unfold configureMargin at hx
  simp only [bind_eq_ok, refusing_eq_ok, pure_eq_ok, Prod.mk.injEq] at hx
  obtain ⟨-, -, ⟨previous, schedule⟩, hinstalled, -, rfl⟩ := hx
  exact .margined rfl (.inl ⟨_, _, _, hinstalled⟩) fun e he => ⟨_, List.mem_singleton.1 he⟩

theorem setMarketActive_acts {market : MarketId} {active : Bool}
    (hx : h.setMarketActive caller market active = .ok ((), next)) :
    Acts h (.setMarketActive caller market active) .done next := by
  unfold setMarketActive at hx
  simp only [bind_eq_ok, refusing_eq_ok, pure_eq_ok, Prod.mk.injEq] at hx
  obtain ⟨-, -, schedule, hswitched, -, rfl⟩ := hx
  refine .margined rfl (.inr ⟨_, _, hswitched⟩) fun e he => ?_
  obtain ⟨tier, -, rfl⟩ := List.mem_map.1 he
  exact ⟨_, rfl⟩

theorem configureDeleverage_acts {market : MarketId} {insuranceThreshold : Bps}
    {maxPositions : UInt32} {gracePeriod : UInt64}
    (hx : h.configureDeleverage caller market insuranceThreshold maxPositions gracePeriod
      = .ok ((), next)) :
    Acts h (.configureDeleverage caller market insuranceThreshold maxPositions gracePeriod) .done
      next := by
  unfold configureDeleverage at hx
  simp only [bind_eq_ok, refusing_eq_ok, pure_eq_ok, Prod.mk.injEq] at hx
  obtain ⟨-, -, ⟨previous, queue⟩, hqueue, -, rfl⟩ := hx
  exact .configured rfl hqueue fun e he => ⟨_, List.mem_singleton.1 he⟩

theorem toggleDeleverage_acts {market : MarketId} {active : Bool}
    (hx : h.toggleDeleverage caller market = .ok (active, next)) :
    Acts h (.toggleDeleverage caller market) (.active active) next := by
  unfold toggleDeleverage at hx
  simp only [bind_eq_ok, refusing_eq_ok, pure_eq_ok, Prod.mk.injEq] at hx
  obtain ⟨-, -, ⟨_, queue⟩, hqueue, rfl, rfl⟩ := hx
  refine .toggled rfl hqueue fun e he => ?_
  obtain ⟨terms, -, rfl⟩ := List.mem_map.1 he
  exact ⟨_, rfl⟩

theorem configureFunding_acts {market : MarketId} {terms : FundingTerms}
    (hx : h.configureFunding caller market terms = .ok ((), next)) :
    Acts h (.configureFunding caller market terms) .done next := by
  unfold configureFunding at hx
  simp only [bind_eq_ok, refusing_eq_ok, pure_eq_ok, Prod.mk.injEq] at hx
  obtain ⟨-, -, ⟨previous, funding⟩, hfunding, -, rfl⟩ := hx
  exact .funded rfl hfunding

/-! ### All calls -/

theorem giving_eq_ok {α : Type} {reply : α → Reply} {x : Attempt (α × House)} {r : Reply}
    (hx : answer.giving reply x = .ok (r, next)) : ∃ a, x = .ok (a, next) ∧ r = reply a := by
  unfold answer.giving at hx
  rw [map_eq_ok] at hx
  obtain ⟨⟨a, next'⟩, hx, heq⟩ := hx
  cases heq
  exact ⟨a, hx, rfl⟩

/-- **What an accepted call has done.** -/
theorem answer_acts {call : Call} {reply : Reply} (hx : h.answer call = .ok (reply, next)) :
    Acts h call reply next := by
  cases call with
  | setTime now =>
    cases hx
    exact .supplied rfl fun _ => rfl
  | advanceTime millis =>
    cases hx
    exact .supplied rfl fun _ => rfl
  | replaceRoles roles =>
    cases hx
    exact .supplied rfl fun _ => rfl
  | replacePrices prices =>
    cases hx
    exact .supplied rfl fun _ => rfl
  | replaceSafeguards safeguards =>
    cases hx
    exact .supplied rfl fun hkept => absurd rfl (hkept safeguards)
  | openPosition caller order =>
    obtain ⟨id, hcall, rfl⟩ := giving_eq_ok hx
    exact openPosition_acts hcall
  | modifyPosition caller id sizeDelta collateralDelta =>
    obtain ⟨realized, hcall, rfl⟩ := giving_eq_ok hx
    exact modifyPosition_acts hcall
  | closePosition caller id =>
    obtain ⟨realized, hcall, rfl⟩ := giving_eq_ok hx
    exact closePosition_acts hcall
  | forceClose caller id price isLiquidation =>
    obtain ⟨realized, hcall, rfl⟩ := giving_eq_ok hx
    exact forceClose_acts hcall
  | executeDeleverage caller shortfall =>
    obtain ⟨coverage, hcall, rfl⟩ := giving_eq_ok hx
    exact executeDeleverage_acts hcall
  | refreshMarket caller market =>
    obtain ⟨refresh, hcall, rfl⟩ := giving_eq_ok hx
    exact refreshMarket_acts hcall
  | settleFunding caller market =>
    obtain ⟨settlement, hcall, rfl⟩ := giving_eq_ok hx
    exact settleFunding_acts hcall
  | configureMargin caller market tier =>
    change answer.giving (fun _ => .done) (h.configureMargin caller market tier) = _ at hx
    obtain ⟨_, hcall, rfl⟩ := giving_eq_ok hx
    exact configureMargin_acts hcall
  | setMarketActive caller market active =>
    change answer.giving (fun _ => .done) (h.setMarketActive caller market active) = _ at hx
    obtain ⟨_, hcall, rfl⟩ := giving_eq_ok hx
    exact setMarketActive_acts hcall
  | configureDeleverage caller market insuranceThreshold maxPositions gracePeriod =>
    change answer.giving (fun _ => .done)
      (h.configureDeleverage caller market insuranceThreshold maxPositions gracePeriod) = _ at hx
    obtain ⟨_, hcall, rfl⟩ := giving_eq_ok hx
    exact configureDeleverage_acts hcall
  | toggleDeleverage caller market =>
    obtain ⟨active, hcall, rfl⟩ := giving_eq_ok hx
    exact toggleDeleverage_acts hcall
  | configureFunding caller market terms =>
    change answer.giving (fun _ => .done) (h.configureFunding caller market terms) = _ at hx
    obtain ⟨_, hcall, rfl⟩ := giving_eq_ok hx
    exact configureFunding_acts hcall

/-- What every accepted call keeps, a run keeps. -/
theorem run_invariant {P : House → Prop} {start : House} {calls : List Call}
    (hstep : ∀ h, P h → ∀ call ∈ calls, ∀ reply next, Acts h call reply next → P next)
    (hstart : P start) (hrun : start.run calls = .ok h) : P h := by
  refine foldlM_invariant (P := P) ?_ hstart hrun
  intro h call hmem next hkept hcall
  obtain ⟨⟨answered, next⟩, hperform, rfl⟩ := map_eq_ok.1 hcall
  rcases orStay_eq_ok.1 hperform with ⟨reply, -, hanswer⟩ | ⟨_, -, -, rfl⟩
  · exact hstep h hkept call hmem reply next (answer_acts hanswer)
  · exact hkept

end House

end Clearing

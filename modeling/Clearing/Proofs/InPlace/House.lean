import Clearing.InPlace.House
import Clearing.Proofs.InPlace.Components
import Clearing.Proofs.Ledger.Steps

/-!
Calls in place: a refused one changes nothing.
-/

namespace Clearing

open Edit

namespace House

namespace InPlace

variable {h : House} {caller : AccountId} {market : MarketId} {α β : Type}

/-! ### Events -/

theorem record_record (h : House) (events more : List Payload) :
    (h.record events).record more = h.record (events ++ more) := by
  unfold record Journal.recordAll
  rw [List.foldl_append]

theorem run_emitAll (h : House) (payloads : List Payload) :
    (emitAll payloads).run h = .ok () (h.record payloads) := by
  induction payloads generalizing h with
  | nil => rfl
  | cons payload payloads ih => exact ih (h.record [payload])

theorem run_forM_emitAll (h : House) (f : α → List Payload) (xs : List α) :
    (xs.forM fun x => emitAll (f x)).run h = .ok () (h.record (xs.flatMap f)) := by
  induction xs generalizing h with
  | nil => rfl
  | cons x xs ih =>
    rw [List.forM, EStateM.run_bind, run_emitAll]
    dsimp only
    rw [ih, record_record, List.flatMap_cons]

theorem run_emitQueueChanges (h : House) (before : DeleverageQueue) (market : MarketId) :
    (emitQueueChanges market fun side => before.length ⟨market, side⟩).run h
      = .ok () (h.record (queueChanges before h.queue market)) := by
  unfold emitQueueChanges queueLengths queueChanges
  rw [run_read_bind]
  generalize hafter : h.queue = after
  clear hafter
  induction [Side.long, Side.short] generalizing h with
  | nil => rfl
  | cons side sides ih =>
    rw [List.forM, EStateM.run_bind, List.filterMap_cons]
    dsimp only at ih ⊢
    by_cases hsame : before.length ⟨market, side⟩ = after.length ⟨market, side⟩
    · rw [if_neg (not_not.2 hsame), if_pos hsame]
      exact ih h
    · rw [if_pos hsame, if_neg hsame, run_emitAll]
      dsimp only
      rw [ih, record_record]
      rfl

/-- The ledger works on its part of the house, and the queue follows it. -/
theorem trading_performs {x : Edit (Observed DeleverageQueue) LedgerError α}
    {out : β → α × Observed DeleverageQueue} {y : Except (Failure LedgerError) β}
    (hx : Performs x ⟨h.ledger, h.queue⟩ out y) :
    Performs (trading x) h (fun b => ((out b).1, tradingPart.set h (out b).2))
      (inTermsOf .ledger y) :=
  (hx.reworded HouseError.ledger).within

/-! ### Trading -/

theorem openPosition_performs (h : House) (caller : AccountId) (order : Order) :
    Performs (openPosition caller order) h id (h.openPosition caller order) := by
  refine .check_bind fun _ _ => .check_bind fun _ _ => .read_bind <| .read_bind <| .read_bind ?_
  refine (trading_performs (Ledger.InPlace.openPosition_performs _ order h.schedule h.now)).commit
    fun posted hposted => ⟨_, rfl, ?_⟩
  obtain ⟨price, notice, -, -, hopens⟩ := Ledger.openPosition_eq_ok (inTermsOf_eq_ok.1 hposted)
  -- The position was written, so looking it up cannot fail.
  have hfound : posted.ledger.position? posted.result
      = some (order.toPosition posted.result price h.now) := by
    rw [hopens.position?]
    exact if_pos rfl
  have hlookup : (tradingPart.set h (Observed.take ⟨h.ledger, h.queue⟩ posted).2).requirePosition
      posted.result = .ok (order.toPosition posted.result price h.now) :=
    refusing_eq_ok.2 (Ledger.find_eq_ok.2 hfound)
  rw [EStateM.run_bind, run_check, hfound]
  simp only [Observed.take] at hlookup ⊢
  simp only [hlookup, EStateM.run_bind, run_emitAll, run_emitQueueChanges, record_record]
  rfl

theorem modifyPosition_performs (h : House) (caller : AccountId) (position : PositionId)
    (sizeDelta : Decimal) (collateralDelta : Amount) :
    Performs (modifyPosition caller position sizeDelta collateralDelta) h id
      (h.modifyPosition caller position sizeDelta collateralDelta) := by
  refine .check_bind fun _ _ => .check_bind fun p _ => .check_bind fun _ _ => ?_
  refine .check_bind fun price _ => .read_bind <| .read_bind <| .read_bind ?_
  refine (trading_performs (Ledger.InPlace.modify_performs _ position sizeDelta collateralDelta
    price h.schedule h.now)).commit fun posted _ => ⟨_, rfl, ?_⟩
  simp only [EStateM.run_bind, run_emitAll, run_emitQueueChanges, record_record]
  rfl

theorem closePosition_performs (h : House) (caller : AccountId) (position : PositionId) :
    Performs (closePosition caller position) h id (h.closePosition caller position) := by
  refine .check_bind fun _ _ => .check_bind fun p _ => .check_bind fun _ _ => ?_
  refine .check_bind fun price _ => .read_bind <| .read_bind ?_
  refine (trading_performs (Ledger.InPlace.close_performs _ position price h.now)).commit
    fun posted _ => ⟨_, rfl, ?_⟩
  simp only [EStateM.run_bind, run_emitAll, run_emitQueueChanges, record_record]
  rfl

theorem forceClose_performs (h : House) (caller : AccountId) (position : PositionId) (price : Price)
    (isLiquidation : Bool) :
    Performs (forceClose caller position price isLiquidation) h id
      (h.forceClose caller position price isLiquidation) := by
  refine .check_bind fun _ _ => .check_bind fun p _ => .check_bind fun _ _ => ?_
  refine .read_bind <| .read_bind ?_
  refine (trading_performs (Ledger.InPlace.close_performs _ position price h.now)).commit
    fun posted _ => ⟨_, rfl, ?_⟩
  cases isLiquidation with
  | false =>
    simp only [Bool.false_eq_true, if_false, EStateM.run_bind, run_emitAll, run_emitQueueChanges,
      record_record]
    rfl
  | true =>
    simp only [if_true, EStateM.run_bind, run_emitAll, run_emitQueueChanges, record_record]
    rfl

theorem executeDeleverage_performs (h : House) (caller : AccountId) (shortfall : Shortfall) :
    Performs (executeDeleverage caller shortfall) h id
      (h.executeDeleverage caller shortfall) := by
  refine .check_bind fun _ _ => .check_bind fun _ _ => .read_bind <| .read_bind <| ?_
  refine .read_bind <| .read_bind ?_
  refine ((DeleverageQueue.execute_performs ⟨h.ledger, h.queue⟩).reworded
    HouseError.deleverage).within.commit fun _ _ => ⟨_, rfl, ?_⟩
  simp only [EStateM.run_bind, run_emitAll, run_forM_emitAll, run_emitQueueChanges, record_record]
  rfl

/-! ### Upkeep -/

theorem refreshMarket_performs (h : House) (caller : AccountId) (market : MarketId) :
    Performs (refreshMarket caller market) h id (h.refreshMarket caller market) := by
  refine .check_bind fun _ _ => .check_bind fun _ _ => .check_bind fun price _ => ?_
  refine .read_bind <| .read_bind <| .read_bind ?_
  have hmarked := trading_performs (h := h)
    (Ledger.InPlace.refreshMarket_performs ⟨h.ledger, h.queue⟩ market price h.now)
  rw [inTermsOf_refusing] at hmarked
  refine hmarked.commit fun posted _ => ⟨_, rfl, ?_⟩
  simp only [EStateM.run_bind, run_emitQueueChanges]
  rfl

theorem settleFunding_performs (h : House) (caller : AccountId) (market : MarketId) :
    Performs (settleFunding caller market) h id (h.settleFunding caller market) := by
  refine .check_bind fun _ _ => .check_bind fun _ _ => .read_bind ?_
  refine ((FundingBook.InPlace.settle_performs ⟨h.funding, h.ledger⟩ market h.now).reworded
    HouseError.funding).within.commit fun _ _ => ⟨_, rfl, ?_⟩
  simp only [EStateM.run_bind, run_emitAll]
  rfl

/-! ### Administration -/

theorem configureMargin_performs (h : House) (caller : AccountId) (market : MarketId)
    (tier : MarginTier) :
    Performs (configureMargin caller market tier) h id (h.configureMargin caller market tier) := by
  refine .check_bind fun _ _ => ?_
  have hinstalled := ((MarginSchedule.InPlace.install_performs h.schedule market tier).reworded
    HouseError.margin).within (p := schedulePart) (s := h)
  rw [inTermsOf_refusing] at hinstalled
  exact hinstalled.commit fun _ _ => ⟨_, rfl, run_emitAll _ _⟩

theorem setMarketActive_performs (h : House) (caller : AccountId) (market : MarketId)
    (active : Bool) :
    Performs (setMarketActive caller market active) h id
      (h.setMarketActive caller market active) := by
  refine .check_bind fun _ _ => .read_bind ?_
  have hswitched := ((MarginSchedule.InPlace.setActive_performs h.schedule market active).reworded
    HouseError.margin).within (p := schedulePart) (s := h)
  rw [inTermsOf_refusing] at hswitched
  exact hswitched.commit fun schedule _ => ⟨_, rfl, run_emitAll _ _⟩

theorem configureDeleverage_performs (h : House) (caller : AccountId) (market : MarketId)
    (insuranceThreshold : Bps) (maxPositions : UInt32) (gracePeriod : UInt64) :
    Performs (configureDeleverage caller market insuranceThreshold maxPositions gracePeriod) h id
      (h.configureDeleverage caller market insuranceThreshold maxPositions gracePeriod) := by
  refine .check_bind fun _ _ => ?_
  have hconfigured := ((DeleverageQueue.InPlace.configure_performs h.queue market
    ⟨insuranceThreshold, maxPositions, gracePeriod, true⟩).reworded
      HouseError.deleverage).within (p := queuePart) (s := h)
  rw [inTermsOf_refusing] at hconfigured
  exact hconfigured.commit fun _ _ => ⟨_, rfl, run_emitAll _ _⟩

theorem toggleDeleverage_performs (h : House) (caller : AccountId) (market : MarketId) :
    Performs (toggleDeleverage caller market) h id (h.toggleDeleverage caller market) := by
  refine .check_bind fun _ _ => ?_
  have htoggled := ((DeleverageQueue.InPlace.toggle_performs h.queue market).reworded
    HouseError.deleverage).within (p := queuePart) (s := h)
  rw [inTermsOf_refusing] at htoggled
  refine htoggled.commit fun _ _ => ⟨_, rfl, ?_⟩
  simp only [EStateM.run_bind, run_emitAll]
  rfl

theorem configureFunding_performs (h : House) (caller : AccountId) (market : MarketId)
    (terms : FundingTerms) :
    Performs (configureFunding caller market terms) h id
      (h.configureFunding caller market terms) := by
  refine .check_bind fun _ _ => .read_bind ?_
  have hconfigured := ((FundingBook.InPlace.configure_performs h.funding market terms
    h.now).reworded HouseError.funding).within (p := fundingPart) (s := h)
  rw [inTermsOf_refusing] at hconfigured
  exact hconfigured.commit fun _ _ => ⟨_, rfl, rfl⟩

/-! ### Every call -/

theorem answer_performs (h : House) (call : Call) :
    Performs (answer call) h id (h.answer call) := by
  cases call with
  | setTime now => exact .done _ rfl
  | advanceTime millis => exact .done _ rfl
  | replaceRoles roles => exact .done _ rfl
  | replacePrices prices => exact .done _ rfl
  | replaceSafeguards safeguards => exact .done _ rfl
  | openPosition caller order => exact (openPosition_performs h caller order).map _
  | modifyPosition caller id sizeDelta collateralDelta =>
    exact (modifyPosition_performs h caller id sizeDelta collateralDelta).map _
  | closePosition caller id => exact (closePosition_performs h caller id).map _
  | forceClose caller id price isLiquidation =>
    exact (forceClose_performs h caller id price isLiquidation).map _
  | executeDeleverage caller shortfall =>
    exact (executeDeleverage_performs h caller shortfall).map _
  | refreshMarket caller market => exact (refreshMarket_performs h caller market).map _
  | settleFunding caller market => exact (settleFunding_performs h caller market).map _
  | configureMargin caller market tier =>
    exact (configureMargin_performs h caller market tier).map _
  | setMarketActive caller market active =>
    exact (setMarketActive_performs h caller market active).map _
  | configureDeleverage caller market insuranceThreshold maxPositions gracePeriod =>
    exact (configureDeleverage_performs h caller market insuranceThreshold maxPositions
      gracePeriod).map _
  | toggleDeleverage caller market => exact (toggleDeleverage_performs h caller market).map _
  | configureFunding caller market terms =>
    exact (configureFunding_performs h caller market terms).map _

/-- In place or not, a call leaves the same house. -/
theorem perform_eq (h : House) (call : Call) : perform h call = h.perform call := by
  refine (answer_performs h call).outcome.trans ?_
  unfold House.perform
  cases h.answer call with
  | ok r => rfl
  | error e => rfl

/-- So does a run. -/
theorem run_eq (h : House) (calls : List Call) : run h calls = h.run calls := by
  unfold run House.run
  induction calls generalizing h with
  | nil => rfl
  | cons call calls ih =>
    rw [List.foldlM_cons, List.foldlM_cons, perform_eq]
    exact congrArg _ (funext ih)

end InPlace

end House

end Clearing

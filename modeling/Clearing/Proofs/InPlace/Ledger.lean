import Clearing.InPlace.Ledger
import Clearing.Proofs.InPlace.Edit

/-!
Operations on a ledger, in place and all or nothing.

Each proof follows the operation down its checks, in their order.  Below the last one there are
only writes, and these come to the ledger that the operation posts.
-/

namespace Clearing

open Edit

namespace Ledger

namespace InPlace

variable {ω : Type} [Observer ω]

theorem openPosition_performs (s : Observed ω) (order : Order) (schedule : MarginSchedule)
    (now : Instant) :
    Performs (openPosition order schedule now) s s.take
      (s.ledger.openPosition order schedule now) := by
  refine .attempt_bind fun tier _ => .attempt_bind fun notional _ => .attempt_bind fun _ _ => ?_
  refine .attempt_bind fun price _ => .read_bind ?_
  refine .check_bind fun oi _ => .check_bind fun portfolio _ => .attempt_bind fun notice _ => ?_
  -- From here on nothing can fail.
  exact .done _ rfl

theorem amend_performs (s : Observed ω) (current updated : Position) (mark : Price)
    (tier : MarginTier) (now : Instant) :
    Performs (amend current updated mark tier now) s
      (fun r => ((), ⟨r.1, Observer.notify s.observer r.2⟩))
      (s.ledger.amend current updated mark tier now) := by
  refine .attempt_bind fun price _ => .attempt_bind fun pnl _ => .attempt_bind fun delta _ => ?_
  refine .check_bind fun oi _ => .check_bind fun portfolio _ => .attempt_bind fun notice _ => ?_
  exact .done _ rfl

theorem modify_performs (s : Observed ω) (id : PositionId) (sizeDelta : Decimal)
    (collateralDelta : Amount) (price : Price) (schedule : MarginSchedule) (now : Instant) :
    Performs (modify id sizeDelta collateralDelta price schedule now) s s.take
      (s.ledger.modify id sizeDelta collateralDelta price schedule now) := by
  refine .check_bind fun current _ => ?_
  generalize (if .zero < sizeDelta then schedule.activeTier? current.market
    else schedule.tier? current.market) = tier?
  cases tier? with
  | none => exact .attempt_refuse
  | some tier =>
    refine .attempt_bind fun pnl _ => .attempt_bind fun resized _ => ?_
    refine .attempt_bind fun collateral _ => .unless fun _ => .ite (fun _ => ?_) fun _ => ?_
    · refine .attempt_bind fun notional _ => ?_
      refine .attempt_bind fun _ _ => .attempt_bind fun total _ => ?_
      exact (amend_performs s current _ price tier now).commit fun _ _ => ⟨_, rfl, rfl⟩
    · refine .attempt_bind fun total _ => ?_
      exact (amend_performs s current _ price tier now).commit fun _ _ => ⟨_, rfl, rfl⟩

theorem close_performs (s : Observed ω) (id : PositionId) (price : Price) (now : Instant) :
    Performs (close id price now) s s.take (s.ledger.close id price now) := by
  refine .check_bind fun p _ => .attempt_bind fun pnl _ => .attempt_bind fun realized _ => ?_
  refine .check_bind fun oi _ => .check_bind fun portfolio _ => ?_
  exact .done _ rfl

theorem forceReduce_performs (s : Observed ω) (id : PositionId) (amount : Decimal)
    (price : Price) (schedule : MarginSchedule) (now : Instant) :
    Performs (forceReduce id amount price schedule now) s s.take
      (s.ledger.forceReduce id amount price schedule now) := by
  refine .unless fun _ => .check_bind fun current _ => .ite (fun _ => ?_) fun _ => ?_
  · exact (close_performs s id price now).commit fun closed _ => ⟨_, rfl, rfl⟩
  · generalize schedule.tier? current.market = tier?
    cases tier? with
    | none => exact .attempt_refuse
    | some tier =>
      refine .attempt_bind fun pnl _ => .attempt_bind fun realized _ => ?_
      refine .attempt_bind fun size _ => .attempt_bind fun total _ => ?_
      exact (amend_performs s current _ price tier now).commit fun _ _ => ⟨_, rfl, rfl⟩

theorem refresh_performs (s : Observed ω) (id : PositionId) (mark : Price) (now : Instant) :
    Performs (refresh id mark now) s s.take
      (refusing (fun cause => cause) (s.ledger.refresh id mark now)) := by
  unfold Ledger.refresh
  simp only [refusing_bind, refusing_mapError]
  refine .check_bind fun p _ => .attempt_bind fun pnl _ => .check_bind fun portfolio _ => ?_
  refine .attempt_bind fun notice _ => ?_
  exact .done _ rfl

omit [Observer ω] in
/-- Writing portfolios, one after the other. -/
theorem run_forM_portfolios (portfolios : List Portfolio) (s : Observed ω) :
    (portfolios.forM fun p =>
      write fun l => { l with portfolios := l.portfolios.insert p.owner p }).run s
      = .ok () ⟨{ s.ledger with
          portfolios := portfolios.foldl (fun t p => t.insert p.owner p) s.ledger.portfolios },
          s.observer⟩ := by
  induction portfolios generalizing s with
  | nil => rfl
  | cons p portfolios ih => exact ih _

/-- Writing marked positions and telling of them, one after the other. -/
theorem run_forM_marked (marked : List Marked) (s : Observed ω) :
    (marked.forM fun m => do
      notify m.notice
      write (·.record m.entry)).run s
      = .ok () ⟨marked.foldl (fun l m => l.record m.entry) s.ledger,
          (marked.map (·.notice)).foldl Observer.notify s.observer⟩ := by
  induction marked generalizing s with
  | nil => rfl
  | cons m marked ih => exact ih _

theorem refreshMarket_performs (s : Observed ω) (market : MarketId) (mark : Price)
    (now : Instant) :
    Performs (refreshMarket market mark now) s s.take
      (refusing (fun cause => cause) (s.ledger.refreshMarket market mark now)) := by
  unfold Ledger.refreshMarket refreshMarket
  simp only [refusing_bind, refusing_mapError, refusing_mapM, InPlace.check, attempt,
    check_bind_check, mapM_check]
  refine .read_bind <| .check_bind fun marked _ => .check_bind fun portfolios _ => .done _ ?_
  simp only [EStateM.run_bind, run_forM_portfolios, run_forM_marked]
  rfl

theorem applyFunding_performs (l : Ledger) (payments : List (PositionId × Amount))
    (index : Decimal) (now : Instant) :
    Performs (applyFunding payments index now) l (fun next => ((), next))
      (refusing (fun cause => cause) (l.applyFunding payments index now)) := by
  unfold Ledger.applyFunding applyFunding
  simp only [refusing_bind, refusing_mapM, mapM_check]
  exact .check_bind fun totals _ => .done _ (run_forM_write _ totals l)

end InPlace

end Ledger

end Clearing

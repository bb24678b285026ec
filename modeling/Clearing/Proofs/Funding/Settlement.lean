import Clearing.Funding.Operation
import Clearing.Proofs.Funding.Plan
import Clearing.Proofs.Run
import Clearing.Proofs.Table

/-!
What the operations of a book have done when they succeed, and why a booking fails.
-/

namespace Clearing

theorem FundingTerms.validate_eq_ok {t : FundingTerms} :
    t.validate = .ok () ↔ t.defect? = none := by
  unfold validate
  cases t.defect? <;> simp

namespace FundingBook

variable {b next : FundingBook} {market : MarketId} {l l' : Ledger} {now : Instant}

/-! ### Lookups after a write -/

theorem state?_advance (b : FundingBook) (market other : MarketId) (state : FundingState)
    (oi : OpenInterest) (now : Instant) :
    (b.advance market state oi now).state? other =
      if other = market then some ⟨now, state.lastRate, state.cumulativeIndex, state.settlements,
        oi.long, oi.short⟩ else b.state? other :=
  Table.get?_insert_eq ..

/-- New terms replace the earlier ones.  The state of a market stays, and it starts where there
is none. -/
theorem configure_eq_ok {terms : FundingTerms} {earlier : Option FundingTerms}
    (h : b.configure market terms now = .ok (earlier, next)) :
    terms.defect? = none ∧ earlier = b.terms? market ∧
      (∀ other, next.terms? other = if other = market then some terms else b.terms? other) ∧
      ∀ other, next.state? other =
        if other = market then some ((b.state? market).getD (.start now)) else b.state? other := by
  unfold configure at h
  rw [bind_eq_ok] at h
  obtain ⟨⟨⟩, hvalid, heq⟩ := h
  cases heq
  refine ⟨FundingTerms.validate_eq_ok.1 hvalid, rfl, fun other => Table.get?_insert_eq ..,
    fun other => ?_⟩
  unfold state? Table.contains
  dsimp only
  cases hstate : b.states.get? market with
  | none => exact Table.get?_insert_eq ..
  | some state =>
    by_cases hother : other = market
    · rw [if_pos hother, hother]
      exact hstate
    · rw [if_neg hother]
      rfl

/-! ### Settlements -/

/-- What a settlement that succeeds has found and done. -/
inductive Settled (b : FundingBook) (market : MarketId) (l : Ledger) (now : Instant) :
    FundingSettlement → FundingBook → Ledger → Prop
  | idle {terms : FundingTerms} (hterms : b.terms? market = some terms)
      (hoff : terms.enabled = false ∨ terms.period = 0) :
      Settled b market l now (.idle market now)
        (b.advance market ((b.state? market).getD (.start now)) (l.openInterest market) now) l
  | charged {terms : FundingTerms} {state state' : FundingState} {rate : Bps} {periods : UInt64}
      {plan : FundingPlan} {l' : Ledger} (hterms : b.terms? market = some terms)
      (hon : terms.enabled = true) (hperiod : terms.period ≠ 0)
      (hstate : (b.state? market).getD (.start now) = state)
      (hperiods : state.lastSettlement.secondsUntil now / terms.period = periods)
      (hsome : periods ≠ 0)
      (hrate : fundingRate (l.openInterest market) terms.maxRate = .ok rate)
      (hplan : FundingPlan.make l market rate periods = .ok plan)
      (hcharge : charge state rate periods = .ok state')
      (hbooked : l.applyFunding (plan.payments.map fun p => (p.position, p.amount))
        state'.cumulativeIndex now = .ok l') :
      Settled b market l now ⟨market, rate, periods, plan.payments, plan.totalPaid, now⟩
        (b.advance market state' (l.openInterest market) now) l'

theorem get_eq_ok {terms : FundingTerms} :
    b.get market = .ok terms ↔ b.terms? market = some terms := by
  unfold get
  cases b.terms? market <;> simp

theorem settle_settled {s : FundingSettlement} (h : b.settle market l now = .ok (s, next, l')) :
    b.Settled market l now s next l' := by
  unfold settle at h
  simp only [bind_eq_ok, refusing_eq_ok, get_eq_ok] at h
  obtain ⟨terms, hterms, h⟩ := h
  split at h
  · rename_i hoff
    rw [pure_eq_ok] at h
    cases h
    exact .idle hterms hoff
  · rename_i hon
    rw [not_or, Bool.not_eq_false] at hon
    simp only [ite_refuse_eq_ok, bind_eq_ok, inTermsOf_eq_ok, refusing_eq_ok, pure_eq_ok] at h
    obtain ⟨hsome, rate, hrate, plan, hplan, state', hcharge, _, hbooked, heq⟩ := h
    cases heq
    exact .charged hterms hon.1 hon.2 rfl rfl hsome hrate hplan hcharge hbooked

theorem Settled.exists_terms {s : FundingSettlement} (h : b.Settled market l now s next l') :
    ∃ terms, b.terms? market = some terms := by
  cases h with
  | idle hterms => exact ⟨_, hterms⟩
  | charged hterms => exact ⟨_, hterms⟩

theorem Settled.terms?_eq {s : FundingSettlement} (h : b.Settled market l now s next l')
    (other : MarketId) : next.terms? other = b.terms? other := by
  cases h <;> rfl

theorem Settled.state?_of_ne {s : FundingSettlement} (h : b.Settled market l now s next l')
    {other : MarketId} (hother : other ≠ market) : next.state? other = b.state? other := by
  cases h <;> exact (state?_advance ..).trans (if_neg hother)

/-- A settlement charges nothing, or it books the payments of a plan. -/
theorem settle_eq_ok {s : FundingSettlement}
    (h : b.settle market l now = .ok (s, next, l')) :
    s = .idle market now ∧ l' = l ∨
      ∃ rate periods plan index, FundingPlan.make l market rate periods = .ok plan ∧
        l.applyFunding (plan.payments.map fun p => (p.position, p.amount)) index now = .ok l' ∧
        s = ⟨market, rate, periods, plan.payments, plan.totalPaid, now⟩ := by
  cases settle_settled h with
  | idle => exact .inl ⟨rfl, rfl⟩
  | charged _ _ _ _ _ _ _ hplan _ hbooked => exact .inr ⟨_, _, _, _, hplan, hbooked, rfl⟩

/-- What the booking of a settlement fails with is what booking the payments of a plan does. -/
theorem settle_eq_booking {cause : LedgerError}
    (h : b.settle market l now = .error (.refused (.booking cause))) :
    ∃ rate periods plan index, FundingPlan.make l market rate periods = .ok plan ∧
      l.applyFunding (plan.payments.map fun p => (p.position, p.amount)) index now
        = .error cause := by
  unfold settle at h
  rcases bind_eq_error.1 h with h | ⟨terms, -, h⟩
  · obtain ⟨_, hget, rfl⟩ := refusing_eq_refused.1 h
    unfold get at hget
    split at hget <;> cases hget
  · split at h
    · cases h
    · dsimp only at h
      split at h
      · cases h
      · rcases bind_eq_error.1 h with h | ⟨rate, -, h⟩
        · obtain ⟨_, -, hcause⟩ := inTermsOf_eq_refused.1 h
          cases hcause
        · rcases bind_eq_error.1 h with h | ⟨plan, hplan, h⟩
          · obtain ⟨_, -, hcause⟩ := refusing_eq_refused.1 h
            cases hcause
          · rcases bind_eq_error.1 h with h | ⟨state, -, h⟩
            · obtain ⟨_, -, hcause⟩ := refusing_eq_refused.1 h
              cases hcause
            · rcases bind_eq_error.1 h with h | ⟨_, -, h⟩
              · obtain ⟨_, hbooked, hcause⟩ := refusing_eq_refused.1 h
                cases hcause
                exact ⟨rate, _, plan, _, refusing_eq_ok.1 hplan, hbooked⟩
              · cases h

end FundingBook

end Clearing

import Clearing.Proofs.Funding.Account

/-!
When a settlement comes too soon.

A settlement before the end of a period is refused, and it names the seconds that are missing.
Anybody can ask a book for the seconds until the next settlement.  The two are worked out apart, and
agree: `settle_tooSoon_iff`.  What has passed is counted in whole seconds and what is missing is the
rest of the period, so whoever waits that long is late enough, by whatever part of a second had
passed besides.

A market without a state would be told that a period has just begun.  No run leaves a market with
terms and without a state (`Clocked`).
-/

namespace Clearing

namespace FundingBook

variable {b next : FundingBook} {market other : MarketId} {l : Ledger} {now : Instant}
  {terms : FundingTerms} {state : FundingState} {seconds : UInt64}

/-! ### Markets have clocks -/

/-- Every market with terms has a state. -/
def Clocked (b : FundingBook) : Prop :=
  ∀ market terms, b.terms? market = some terms → ∃ state, b.state? market = some state

theorem Clocked.empty : Clocked .empty :=
  nofun

theorem Clocked.configure {given : FundingTerms} {earlier : Option FundingTerms} (h : b.Clocked)
    (hconfigure : b.configure other given now = .ok (earlier, next)) : next.Clocked := by
  obtain ⟨-, -, hterms, hstate⟩ := configure_eq_ok hconfigure
  intro market terms hmarket
  rw [hterms] at hmarket
  rw [hstate]
  split
  · exact ⟨_, rfl⟩
  · rename_i hother
    rw [if_neg hother] at hmarket
    exact h market terms hmarket

theorem Clocked.settle {s : FundingSettlement} {l' : Ledger} (h : b.Clocked)
    (hsettle : b.settle other l now = .ok (s, next, l')) : next.Clocked := by
  have hsettled := settle_settled hsettle
  intro market terms hmarket
  rw [hsettled.terms?_eq] at hmarket
  by_cases hother : market = other
  · cases hsettled <;>
    · rw [state?_advance, if_pos hother]
      exact ⟨_, rfl⟩
  · rw [hsettled.state?_of_ne hother]
    exact h market terms hmarket

theorem Clocked.perform {op : Operation} {reply : Except FundingError Reply} (h : b.Clocked)
    (hperform : b.perform op = .ok (reply, next)) : next.Clocked := by
  rcases orStay_eq_ok.1 hperform with ⟨r, -, hanswer⟩ | ⟨_, -, -, rfl⟩
  · cases op with
    | configure other given now =>
      simp only [answer, bind_eq_ok, refusing_eq_ok, pure_eq_ok, Prod.mk.injEq] at hanswer
      obtain ⟨⟨earlier, _⟩, hconfigure, -, rfl⟩ := hanswer
      exact h.configure hconfigure
    | settle other l now =>
      simp only [answer, bind_eq_ok, pure_eq_ok, Prod.mk.injEq] at hanswer
      obtain ⟨⟨s, _, l'⟩, hsettle, -, rfl⟩ := hanswer
      exact h.settle hsettle
  · exact h

theorem Clocked.run {ops : List Operation} {replies : List (Except FundingError Reply)}
    {last : FundingBook} (h : b.Clocked) (hrun : b.run ops = .ok (replies, last)) :
    last.Clocked :=
  inTurn_invariant (fun _ h _ _ _ _ => h.perform) h hrun

/-! ### What is missing of a period -/

/-- A settlement is refused as too soon, whatever it names. -/
def TooSoon (b : FundingBook) (market : MarketId) (l : Ledger) (now : Instant) : Prop :=
  ∃ other seconds, b.settle market l now = .error (.refused (.tooSoon other seconds))

/-- The seconds of a period that are missing when so many have passed. -/
def missing (period elapsed : UInt64) : UInt64 :=
  if elapsed ≤ period then period - elapsed else 0

theorem toNat_missing (period elapsed : UInt64) :
    (missing period elapsed).toNat = period.toNat - elapsed.toNat := by
  unfold missing
  split
  · rename_i hle
    exact UInt64.toNat_sub_of_le _ _ hle
  · rename_i hlt
    rw [UInt64.le_iff_toNat_le] at hlt
    show 0 = _
    omega

theorem missing_pos_iff {period elapsed : UInt64} :
    0 < missing period elapsed ↔ elapsed < period := by
  rw [UInt64.lt_iff_toNat_lt, UInt64.lt_iff_toNat_lt, toNat_missing]
  exact Nat.sub_pos_iff_lt

theorem missing_of_lt {period elapsed : UInt64} (h : elapsed < period) :
    missing period elapsed = period - elapsed :=
  if_pos (UInt64.le_of_lt h)

/-- A period is not complete just where seconds of it are missing. -/
theorem div_eq_zero_iff {period elapsed : UInt64} (hperiod : period ≠ 0) :
    elapsed / period = 0 ↔ elapsed < period := by
  have hpos : period.toNat ≠ 0 := fun hzero => hperiod (UInt64.toNat_inj.1 hzero)
  rw [← UInt64.toNat_inj, UInt64.toNat_div, UInt64.lt_iff_toNat_lt]
  exact Nat.div_eq_zero_iff.trans (or_iff_right hpos)

/-- What is told is what is missing. -/
theorem secondsUntilNext_eq (hterms : b.terms? market = some terms)
    (hstate : b.state? market = some state) :
    b.secondsUntilNext market now
      = .ok (missing terms.period (state.lastSettlement.secondsUntil now)) := by
  unfold secondsUntilNext
  rw [get_eq_ok.2 hterms, hstate]
  rfl

/-- A settlement that comes too soon names what is missing, and nothing else is refused for that. -/
theorem settle_eq_tooSoon (hterms : b.terms? market = some terms)
    (hstate : b.state? market = some state) (hon : terms.enabled = true)
    (hperiod : terms.period ≠ 0) :
    b.settle market l now = .error (.refused (.tooSoon other seconds)) ↔
      other = market ∧ state.lastSettlement.secondsUntil now < terms.period ∧
        seconds = missing terms.period (state.lastSettlement.secondsUntil now) := by
  have hget : refusing id (b.get market) = .ok terms := refusing_eq_ok.2 (get_eq_ok.2 hterms)
  have hoff : ¬ (terms.enabled = false ∨ terms.period = 0) := by
    rw [hon]
    exact not_or.2 ⟨Bool.noConfusion, hperiod⟩
  unfold settle
  rw [hget, hstate]
  constructor
  · intro h
    rcases bind_eq_error.1 h with h | ⟨_, hsame, h⟩
    · cases h
    cases hsame
    rw [if_neg hoff] at h
    rcases ite_refuse_eq_error.1 h with ⟨hnone, hcause⟩ | ⟨-, h⟩
    · have hshort := (div_eq_zero_iff hperiod).1 hnone
      cases hcause
      exact ⟨rfl, hshort, (missing_of_lt hshort).symm⟩
    -- Each step after the check has its own word for what it is refused for.
    rcases bind_eq_error.1 h with h | ⟨rate, -, h⟩
    · obtain ⟨_, -, hcause⟩ := inTermsOf_eq_refused.1 h
      cases hcause
    rcases bind_eq_error.1 h with h | ⟨plan, -, h⟩
    · obtain ⟨_, -, hcause⟩ := refusing_eq_refused.1 h
      cases hcause
    rcases bind_eq_error.1 h with h | ⟨charged, -, h⟩
    · obtain ⟨_, -, hcause⟩ := refusing_eq_refused.1 h
      cases hcause
    rcases bind_eq_error.1 h with h | ⟨booked, -, h⟩
    · obtain ⟨_, -, hcause⟩ := refusing_eq_refused.1 h
      cases hcause
    · cases h
  · rintro ⟨rfl, hshort, rfl⟩
    refine bind_eq_error.2 (.inr ⟨terms, rfl, ?_⟩)
    rw [if_neg hoff, missing_of_lt hshort]
    exact ite_refuse_eq_error.2 (.inl ⟨(div_eq_zero_iff hperiod).2 hshort, rfl⟩)

/-- **When a settlement comes too soon.**  In every book that a run reaches, a settlement of a
market with funding is refused as too soon just where the book tells a wait, and it names that wait;
and unless the clock is behind the last settlement, a settlement that waits so long, of whatever
ledger, is not refused as too soon. -/
theorem settle_tooSoon_iff {ops : List Operation} {replies : List (Except FundingError Reply)}
    (hrun : empty.run ops = .ok (replies, b)) (hterms : b.terms? market = some terms)
    (hon : terms.enabled = true) (hperiod : 0 < terms.period) (l : Ledger) (now : Instant) :
    ∃ state wait, b.state? market = some state ∧ b.secondsUntilNext market now = .ok wait ∧
      (∀ other seconds, b.settle market l now = .error (.refused (.tooSoon other seconds)) ↔
        other = market ∧ 0 < wait ∧ seconds = wait) ∧
      (¬ now < state.lastSettlement → ∀ l' later, state.lastSettlement.Fits later →
        (wait.toNat : Int) * 1000 ≤ now.gap later → ¬ b.TooSoon market l' later) := by
  have hsome : terms.period ≠ 0 := UInt64.pos_iff_ne_zero.1 hperiod
  obtain ⟨state, hstate⟩ := Clocked.empty.run hrun market terms hterms
  refine ⟨state, _, hstate, secondsUntilNext_eq hterms hstate, fun other seconds => ?_, ?_⟩
  · rw [missing_pos_iff]
    exact settle_eq_tooSoon hterms hstate hon hsome
  · rintro hclock l' later hfits hlater ⟨other, seconds, h⟩
    obtain ⟨-, hshort, -⟩ := (settle_eq_tooSoon hterms hstate hon hsome).1 h
    have hpassed := hfits.add_le_secondsUntil (Instant.not_lt_iff.1 hclock) hlater
    rw [UInt64.lt_iff_toNat_lt] at hshort
    rw [toNat_missing] at hpassed
    omega

/-- An hour is settled as soon as it is over. -/
def sampleHour (l : Ledger) : List Operation :=
  [.configure ⟨1⟩ (hourly true) .epoch, .settle ⟨1⟩ l ⟨3600000⟩]

/-- Five and a half seconds into the next hour all but five seconds of it are missing, and after
these no settlement is too soon. -/
theorem settle_tooSoon_hourly :
    ∃ ledgerReplies l replies b,
      (Ledger.startingAt 1).run sampleTrades = .ok (ledgerReplies, l) ∧
      empty.run (sampleHour l) = .ok (replies, b) ∧
      b.secondsUntilNext ⟨1⟩ ⟨3605500⟩ = .ok 3595 ∧
      b.settle ⟨1⟩ l ⟨3605500⟩ = .error (.refused (.tooSoon ⟨1⟩ 3595)) ∧
      ∀ l', ¬ b.TooSoon ⟨1⟩ l' ⟨7200500⟩ := by
  obtain ⟨⟨ledgerReplies, l⟩, hledger, htest⟩ := exists_of_succeedsWith
    (fun r => succeedsWith (fun r' => r'.2.terms? ⟨1⟩ = some (hourly true) ∧
        (r'.2.state? ⟨1⟩).map (·.lastSettlement) = some ⟨3600000⟩ ∧
        failsWith (.refused (.tooSoon ⟨1⟩ 3595)) (r'.2.settle ⟨1⟩ r.2 ⟨3605500⟩))
      (empty.run (sampleHour r.2)))
    (x := (Ledger.startingAt 1).run sampleTrades) (by decide +kernel)
  obtain ⟨⟨replies, b⟩, hrun, hseen⟩ := exists_of_succeedsWith _ htest
  obtain ⟨hterms, hclock, hrefused⟩ := of_decide_eq_true hseen
  have hsettle := eq_error_of_failsWith hrefused
  obtain ⟨state, wait, hstate, htold, hnames, henough⟩ :=
    settle_tooSoon_iff hrun hterms rfl (by decide) l ⟨3605500⟩
  obtain ⟨-, -, rfl⟩ := (hnames _ _).1 hsettle
  have hlast : state.lastSettlement = ⟨3600000⟩ := by
    dsimp only at hclock
    rw [hstate] at hclock
    exact Option.some.inj hclock
  rw [hlast] at henough
  exact ⟨ledgerReplies, l, replies, b, hledger, hrun, htold, hsettle,
    fun l' => henough (by decide) l' ⟨7200500⟩ (by decide) (by decide)⟩

end FundingBook

end Clearing

import Clearing.Proofs.Funding.Account

/-!
Which of the time that is charged was time with funding enabled.

A settlement charges whole periods of the time since the one before it.  New terms do not move the
clock, so what was disabled and is enabled again without a settlement in between counts as if it
had been enabled throughout.  The account of the market knows better, and says when the
settlement is right all the same.
-/

namespace Clearing

namespace FundingBook

variable {b : FundingBook} {ops : List Operation} {replies : List (Except FundingError Reply)}

/-- **When only enabled time is charged.**  After any run whose clock never goes back, a settlement
that succeeds charges no more than the time since the one before it, or since the first terms.  All
of what it charges was time with funding enabled just where the time without fits into what it
leaves uncharged. -/
theorem settle_charges_enabled_iff {market : MarketId} {l l' : Ledger} {now : Instant}
    {s : FundingSettlement} {next : FundingBook} (hrun : empty.run ops = .ok (replies, b))
    (hforward : Forward (ops ++ [.settle market l now]))
    (h : b.settle market l now = .ok (s, next, l')) :
    ∃ a, FundingAccount.ofRun market ops replies = some a ∧ b.terms? market = some a.terms ∧
      ((a.charge s now).seconds : Int) ≤ a.since.gap now / 1000 ∧
      (((a.charge s now).seconds : Int) ≤ (a.pass now).enabled / 1000 ↔
        (a.pass now).disabled ≤ a.since.gap now - (a.charge s now).seconds * 1000) := by
  have hsettled := settle_settled h
  obtain ⟨hfollows, hahead⟩ := FundingAccount.follows_ofRun hrun hforward market
  generalize FundingAccount.ofRun market ops replies = account at hfollows hahead ⊢
  cases hfollows with
  | unconfigured hnone =>
    obtain ⟨terms, hterms⟩ := hsettled.exists_terms
    rw [hnone] at hterms
    cases hterms
  | @configured a state hsound hterms hstate hshows =>
    have hnow : 0 ≤ a.seen.gap now :=
      hahead a rfl (.settle market l now) (List.mem_singleton_self _)
    have hcharged := FundingAccount.Follows.charged_le
      (.configured hsound hterms hstate hshows) hnow hsettled
    have hcounted : (a.pass now).enabled + (a.pass now).disabled = a.since.gap now :=
      (hsound.pass hnow).counted
    have hfits : ((a.charge s now).seconds : Int) ≤ a.since.gap now / 1000 := by omega
    exact ⟨a, rfl, hterms, hfits, by omega⟩

/-- Disabled after an hour and settled so, before it is enabled for another hour. -/
def sampleSettledOff (l : Ledger) : List Operation :=
  [.configure ⟨1⟩ (hourly true) .epoch, .configure ⟨1⟩ (hourly false) ⟨3600000⟩,
    .settle ⟨1⟩ l ⟨7200000⟩, .configure ⟨1⟩ (hourly true) ⟨7200000⟩]

theorem settle_charges_enabled_hour :
    ∃ ledgerReplies l replies b s next l' a,
      (Ledger.startingAt 1).run sampleTrades = .ok (ledgerReplies, l) ∧
      empty.run (sampleSettledOff l) = .ok (replies, b) ∧
      Forward (sampleSettledOff l ++ [.settle ⟨1⟩ l ⟨10800000⟩]) ∧
      b.settle ⟨1⟩ l ⟨10800000⟩ = .ok (s, next, l') ∧ s.periods = 1 ∧
      FundingAccount.ofRun ⟨1⟩ (sampleSettledOff l) replies = some a ∧
      ((a.charge s ⟨10800000⟩).seconds : Int) ≤ (a.pass ⟨10800000⟩).enabled / 1000 := by
  obtain ⟨⟨ledgerReplies, l⟩, hledger, htest⟩ := exists_of_succeedsWith
    (fun r => succeedsWith (fun r' =>
        Forward (sampleSettledOff r.2 ++ [.settle ⟨1⟩ r.2 ⟨10800000⟩]) ∧
        succeedsWith (fun r'' => r''.1.periods = 1 ∧
            (FundingAccount.ofRun ⟨1⟩ (sampleSettledOff r.2) r'.1).map
              (fun a => (a.pass ⟨10800000⟩).disabled) = some 0)
          (r'.2.settle ⟨1⟩ r.2 ⟨10800000⟩) = true)
      (empty.run (sampleSettledOff r.2)))
    (x := (Ledger.startingAt 1).run sampleTrades) (by decide +kernel)
  obtain ⟨⟨replies, b⟩, hrun, htest⟩ := exists_of_succeedsWith _ htest
  obtain ⟨hforward, htest⟩ := of_decide_eq_true htest
  obtain ⟨⟨s, next, l'⟩, h, htest⟩ := exists_of_succeedsWith _ htest
  obtain ⟨hperiods, hdisabled⟩ := of_decide_eq_true htest
  obtain ⟨a, haccount, -, hcharged, henabled⟩ := settle_charges_enabled_iff hrun hforward h
  rw [haccount, Option.map_some, Option.some.injEq] at hdisabled
  exact ⟨ledgerReplies, l, replies, b, s, next, l', a, hledger, hrun, hforward, h, hperiods,
    haccount, henabled.2 (by omega)⟩

/-- Disabled for all but ten seconds of an hour, and enabled again at the end of it. -/
def sampleEnabledAgain : List Operation :=
  [.configure ⟨1⟩ (hourly true) .epoch, .configure ⟨1⟩ (hourly false) ⟨10000⟩,
    .configure ⟨1⟩ (hourly true) ⟨3600000⟩]

/-- The hour is charged as if funding had been enabled for all of it. -/
theorem settle_charges_disabled :
    ∃ ledgerReplies l replies b s next l' a,
      (Ledger.startingAt 1).run sampleTrades = .ok (ledgerReplies, l) ∧
      empty.run sampleEnabledAgain = .ok (replies, b) ∧
      Forward (sampleEnabledAgain ++ [.settle ⟨1⟩ l ⟨3600000⟩]) ∧
      b.settle ⟨1⟩ l ⟨3600000⟩ = .ok (s, next, l') ∧ s.totalPaid ≠ .zero ∧
      FundingAccount.ofRun ⟨1⟩ sampleEnabledAgain replies = some a ∧
      (a.charge s ⟨3600000⟩).seconds = 3600 ∧ (a.pass ⟨3600000⟩).enabled = 10000 ∧
      ¬ ((a.charge s ⟨3600000⟩).seconds : Int) ≤ (a.pass ⟨3600000⟩).enabled / 1000 := by
  obtain ⟨⟨ledgerReplies, l⟩, hledger, htest⟩ := exists_of_succeedsWith
    (fun r => succeedsWith (fun r' =>
        Forward (sampleEnabledAgain ++ [.settle ⟨1⟩ r.2 ⟨3600000⟩]) ∧
        succeedsWith (fun r'' => r''.1.totalPaid ≠ .zero ∧
            (FundingAccount.ofRun ⟨1⟩ sampleEnabledAgain r'.1).map
              (fun a => ((a.charge r''.1 ⟨3600000⟩).seconds, (a.pass ⟨3600000⟩).enabled)) =
                some (3600, 10000))
          (r'.2.settle ⟨1⟩ r.2 ⟨3600000⟩) = true)
      (empty.run sampleEnabledAgain))
    (x := (Ledger.startingAt 1).run sampleTrades) (by decide +kernel)
  obtain ⟨⟨replies, b⟩, hrun, htest⟩ := exists_of_succeedsWith _ htest
  obtain ⟨hforward, htest⟩ := of_decide_eq_true htest
  obtain ⟨⟨s, next, l'⟩, h, htest⟩ := exists_of_succeedsWith _ htest
  obtain ⟨hpaid, hseen⟩ := of_decide_eq_true htest
  obtain ⟨a, haccount, hseen⟩ := Option.map_eq_some_iff.1 hseen
  obtain ⟨hseconds, henabled⟩ := Prod.mk.injEq .. ▸ hseen
  exact ⟨ledgerReplies, l, replies, b, s, next, l', a, hledger, hrun, hforward, h, hpaid, haccount,
    hseconds, henabled, by rw [hseconds, henabled]; decide⟩

end FundingBook

end Clearing

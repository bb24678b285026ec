import Clearing.Proofs.Funding.Account

/-!
The preview of a rate against the rate that a settlement charges.

Both look at the same open interest and the same terms.  They part where the terms enable funding
and give its periods no length: a settlement takes that for disabled funding, and the preview
does not.
-/

namespace Clearing

namespace FundingBook

variable {b next : FundingBook} {market : MarketId} {l l' : Ledger} {now : Instant}
  {s : FundingSettlement} {terms : FundingTerms} {rate : Bps}

/-- What the preview shows under given terms. -/
theorem previewRate_eq_ok (hterms : b.terms? market = some terms) :
    b.previewRate market l = .ok rate ↔
      if terms.enabled = false then rate = .zero
      else fundingRate (l.openInterest market) terms.maxRate = .ok rate := by
  unfold previewRate
  simp only [bind_eq_ok, refusing_eq_ok, get_eq_ok, hterms, Option.some.injEq, exists_eq_left']
  split
  · exact pure_eq_ok.trans eq_comm
  · exact inTermsOf_eq_ok

/-- **When the preview is the rate that is charged.**  Whatever the book, the ledger and the time,
the rate of a settlement that succeeds is the one that the preview shows before it, save for terms
that enable funding with periods of no length.  Under those the two agree just where open interest
gives the rate zero. -/
theorem settle_rate_previewed_iff (h : b.settle market l now = .ok (s, next, l')) :
    b.previewRate market l = .ok s.rate ↔
      ∀ terms, b.terms? market = some terms → terms.enabled = true → terms.period = 0 →
        fundingRate (l.openInterest market) terms.maxRate = .ok .zero := by
  obtain ⟨terms, hterms⟩ := (settle_settled h).exists_terms
  simp only [previewRate_eq_ok hterms, hterms, Option.some.injEq, forall_eq']
  cases settle_settled h with
  | idle hsome hoff =>
    rw [hterms, Option.some.injEq] at hsome
    subst hsome
    by_cases hon : terms.enabled = true
    · have hperiod : terms.period = 0 := hoff.resolve_left (by rw [hon]; decide)
      rw [if_neg (by rw [hon]; decide)]
      exact ⟨fun hrate _ _ => hrate, fun hzero => hzero hon hperiod⟩
    · rw [if_pos (Bool.not_eq_true _ ▸ hon)]
      exact iff_of_true rfl fun henabled => absurd henabled hon
  | charged hsome hon hperiod _ _ _ hrate =>
    rw [hterms, Option.some.injEq] at hsome
    subst hsome
    rw [if_neg (by rw [hon]; decide)]
    exact iff_of_true hrate fun _ hzero => absurd hzero hperiod

/-- An hour on hourly terms. -/
theorem settle_rate_previewed_hourly :
    ∃ ledgerReplies l replies b s next l',
      (Ledger.startingAt 1).run sampleTrades = .ok (ledgerReplies, l) ∧
      empty.run [.configure ⟨1⟩ (hourly true) .epoch] = .ok (replies, b) ∧
      b.settle ⟨1⟩ l ⟨3600000⟩ = .ok (s, next, l') ∧ s.rate = ⟨75⟩ ∧
      b.previewRate ⟨1⟩ l = .ok s.rate := by
  obtain ⟨⟨ledgerReplies, l⟩, hledger, htest⟩ := exists_of_succeedsWith
    (fun r => succeedsWith (fun r' => r'.2.terms? ⟨1⟩ = some (hourly true) ∧
        succeedsWith (fun r'' => r''.1.rate = ⟨75⟩) (r'.2.settle ⟨1⟩ r.2 ⟨3600000⟩) = true)
      (empty.run [.configure ⟨1⟩ (hourly true) .epoch]))
    (x := (Ledger.startingAt 1).run sampleTrades) (by decide +kernel)
  obtain ⟨⟨replies, b⟩, hrun, htest⟩ := exists_of_succeedsWith _ htest
  obtain ⟨hterms, htest⟩ := of_decide_eq_true htest
  obtain ⟨⟨s, next, l'⟩, h, hseen⟩ := exists_of_succeedsWith _ htest
  refine ⟨ledgerReplies, l, replies, b, s, next, l', hledger, hrun, h, of_decide_eq_true hseen,
    (settle_rate_previewed_iff h).2 fun terms hsome _ hperiod => ?_⟩
  rw [hterms, Option.some.injEq] at hsome
  subst hsome
  cases hperiod

/-- Terms that enable funding and give its periods no length, while open interest is out of
balance: the settlement charges nothing. -/
theorem settle_rate_not_previewed :
    ∃ ledgerReplies l replies b s next l',
      (Ledger.startingAt 1).run sampleTrades = .ok (ledgerReplies, l) ∧
      empty.run [.configure ⟨1⟩ ⟨true, 0, ⟨300⟩⟩ .epoch] = .ok (replies, b) ∧
      b.previewRate ⟨1⟩ l = .ok ⟨75⟩ ∧ b.settle ⟨1⟩ l ⟨3600000⟩ = .ok (s, next, l') ∧
      s.rate = .zero ∧ b.previewRate ⟨1⟩ l ≠ .ok s.rate := by
  obtain ⟨⟨ledgerReplies, l⟩, hledger, htest⟩ := exists_of_succeedsWith
    (fun r => succeedsWith (fun r' =>
        succeedsWith (fun rate => rate = ⟨75⟩) (r'.2.previewRate ⟨1⟩ r.2) ∧
        succeedsWith (fun r'' => r''.1.rate = .zero) (r'.2.settle ⟨1⟩ r.2 ⟨3600000⟩) = true)
      (empty.run [.configure ⟨1⟩ ⟨true, 0, ⟨300⟩⟩ .epoch]))
    (x := (Ledger.startingAt 1).run sampleTrades) (by decide +kernel)
  obtain ⟨⟨replies, b⟩, hrun, htest⟩ := exists_of_succeedsWith _ htest
  obtain ⟨hpreview, hsettle⟩ := of_decide_eq_true htest
  obtain ⟨rate, hpreview, hrate⟩ := exists_of_succeedsWith _ hpreview
  obtain ⟨⟨s, next, l'⟩, h, hseen⟩ := exists_of_succeedsWith _ hsettle
  rw [of_decide_eq_true hrate] at hpreview
  have hzero : s.rate = .zero := of_decide_eq_true hseen
  refine ⟨ledgerReplies, l, replies, b, s, next, l', hledger, hrun, hpreview, h, hzero, ?_⟩
  rw [hpreview, hzero]
  decide

end FundingBook

end Clearing

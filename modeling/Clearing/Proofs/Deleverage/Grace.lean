import Clearing.Proofs.Deleverage.Record
import Clearing.Proofs.Instant

/-!
How long a refused execution has to wait.

An execution that comes before the grace period of its market is over is refused, and told a number
of seconds to wait.  The gate compares milliseconds, while the wait is the whole seconds of what is
left, and one where there are none.  Waiting that long is enough just where nothing was cut off
(`execute_wait_suffices_iff`).

Nothing else that an execution finds on its way is told as a grace period: the checks before this
one have their own refusals, and a walk is refused only for what it could not close.
-/

namespace Clearing

namespace DeleverageQueue

variable {q : DeleverageQueue} {l : Ledger} {schedule : MarginSchedule} {shortfall : Shortfall}
  {now later ready last : Instant} {terms : DeleverageTerms} {market : MarketId} {wait : UInt64}

/-- The checks on a shortfall find nothing, but it is held back until an instant: the end of the
grace period that the latest execution of its market began. -/
def HeldUntil (q : DeleverageQueue) (shortfall : Shortfall) (ready : Instant) : Prop :=
  ∃ terms last, q.activeTerms shortfall.market = .ok terms ∧ ¬ shortfall.size ≤ .zero ∧
    0 < terms.gracePeriod ∧ q.lastExecution? shortfall.market = some last ∧
    ready = last.plusSeconds terms.gracePeriod

/-- An execution at this time is refused because the grace period is not over. -/
def InGrace (q : DeleverageQueue) (l : Ledger) (schedule : MarginSchedule) (shortfall : Shortfall)
    (now : Instant) : Prop :=
  ∃ market wait,
    q.execute l schedule shortfall now = .error (.refused (.gracePeriod market wait))

/-- After so many seconds, counted from an instant, the grace period is over for good. -/
def OverAfter (q : DeleverageQueue) (l : Ledger) (schedule : MarginSchedule)
    (shortfall : Shortfall) (now : Instant) (seconds : Nat) : Prop :=
  ∀ later, (seconds : Int) * 1000 ≤ now.gap later → ¬ q.InGrace l schedule shortfall later

/-! ### Where a grace period is told -/

/-- The seconds that are told to whoever comes before an instant. -/
def toldWait (now ready : Instant) : UInt64 :=
  if now.secondsUntil ready < 1 then 1 else now.secondsUntil ready

theorem requireGrace_eq_error {e : DeleverageError} :
    q.requireGrace market terms now = .error e ↔
      ∃ last, q.lastExecution? market = some last ∧ 0 < terms.gracePeriod ∧
        now < last.plusSeconds terms.gracePeriod ∧
        e = .gracePeriod market (toldWait now (last.plusSeconds terms.gracePeriod)) := by
  unfold requireGrace
  cases q.lastExecution? market with
  | none => simp
  | some last =>
    dsimp only
    split
    · rename_i hearly
      simp [hearly, toldWait, eq_comm]
    · rename_i hnot
      simp only [reduceCtorEq, Option.some.injEq, exists_eq_left', false_iff]
      exact fun ⟨hgrace, hearly, _⟩ => hnot ⟨hgrace, hearly⟩

theorem permit_eq_gracePeriod :
    q.permit shortfall now = .error (.gracePeriod market wait) ↔
      market = shortfall.market ∧
        ∃ ready, q.HeldUntil shortfall ready ∧ now < ready ∧ wait = toldWait now ready := by
  unfold permit
  rw [bind_eq_error]
  constructor
  · rintro (hactive | ⟨terms, hactive, h⟩)
    · unfold activeTerms at hactive
      split at hactive <;> cases hactive
    · rcases ite_throw_eq_error.1 h with ⟨-, hsize⟩ | ⟨hsize, h⟩
      · cases hsize
      rcases bind_eq_error.1 h with h | ⟨-, -, h⟩
      · obtain ⟨last, hlast, hgrace, hearly, hcause⟩ := requireGrace_eq_error.1 h
        cases hcause
        exact ⟨rfl, _, ⟨terms, last, hactive, hsize, hgrace, hlast, rfl⟩, hearly, rfl⟩
      · cases h
  · rintro ⟨rfl, _, ⟨terms, last, hactive, hsize, hgrace, hlast, rfl⟩, hearly, rfl⟩
    refine .inr ⟨terms, hactive, ite_throw_eq_error.2 (.inr ⟨hsize, bind_eq_error.2 (.inl ?_)⟩)⟩
    exact requireGrace_eq_error.2 ⟨last, hlast, hgrace, hearly, rfl⟩

/-- A walk is refused only where a position could not be closed. -/
theorem take_eq_refused {w : Walk} {pick : Nat × Candidate} {e : DeleverageError}
    (h : w.take shortfall schedule now pick = .error (.refused e)) :
    ∃ cause, e = .forcedClose cause := by
  unfold Walk.take at h
  split at h
  · cases h
  cases hp : w.ledger.position? pick.2.position with
  | none =>
    rw [hp] at h
    cases h
  | some p =>
    rw [hp] at h
    dsimp only at h
    rcases bind_eq_error.1 h with h | ⟨posted, -, h⟩
    · obtain ⟨cause, -, rfl⟩ := inTermsOf_eq_refused.1 h
      exact ⟨cause, rfl⟩
    -- The two accounts of a walk can stop it, but they refuse nothing.
    rcases bind_eq_error.1 h with h | ⟨remaining, -, h⟩
    · exact absurd h Decimal.subOrStop_ne_refused
    rcases bind_eq_error.1 h with h | ⟨closed, -, h⟩
    · exact absurd h Decimal.addOrStop_ne_refused
    · cases h

theorem execute_eq_gracePeriod :
    q.execute l schedule shortfall now = .error (.refused (.gracePeriod market wait)) ↔
      market = shortfall.market ∧
        ∃ ready, q.HeldUntil shortfall ready ∧ now < ready ∧ wait = toldWait now ready := by
  rw [← permit_eq_gracePeriod]
  unfold execute
  constructor
  · intro h
    rcases bind_eq_error.1 h with h | ⟨terms, -, h⟩
    · obtain ⟨_, hpermit, rfl⟩ := refusing_eq_refused.1 h
      exact hpermit
    · dsimp only at h
      split at h
      · cases h
      rcases bind_eq_error.1 h with h | ⟨walk, -, h⟩
      · obtain ⟨_, _, -, htake⟩ := foldlM_eq_error h
        obtain ⟨_, hcause⟩ := take_eq_refused htake
        cases hcause
      · cases h
  · intro hpermit
    exact bind_eq_error.2 (.inl (refusing_eq_refused.2 ⟨_, hpermit, rfl⟩))

theorem inGrace_iff :
    q.InGrace l schedule shortfall now ↔ ∃ ready, q.HeldUntil shortfall ready ∧ now < ready := by
  unfold InGrace
  simp only [execute_eq_gracePeriod]
  constructor
  · rintro ⟨market, wait, -, ready, hheld, hearly, -⟩
    exact ⟨ready, hheld, hearly⟩
  · rintro ⟨ready, hheld, hearly⟩
    exact ⟨_, _, rfl, ready, hheld, hearly, rfl⟩

theorem HeldUntil.unique {ready' : Instant} (h : q.HeldUntil shortfall ready)
    (h' : q.HeldUntil shortfall ready') : ready = ready' := by
  obtain ⟨terms, last, hactive, -, -, hlast, rfl⟩ := h
  obtain ⟨terms', last', hactive', -, -, hlast', rfl⟩ := h'
  cases hactive.symm.trans hactive'
  cases hlast.symm.trans hlast'
  rfl

/-! ### How long it lasts -/

/-- What is left of the grace period, and nothing else, decides how long is long enough. -/
theorem HeldUntil.overAfter_iff (h : q.HeldUntil shortfall ready) {seconds : Nat} :
    q.OverAfter l schedule shortfall now seconds ↔ now.gap ready ≤ seconds * 1000 := by
  unfold OverAfter
  simp only [inGrace_iff]
  constructor
  · intro hover
    by_contra hshort
    obtain ⟨later, hlater⟩ : ∃ later, now.gap later = seconds * 1000 :=
      Instant.exists_gap_eq (by omega) (Int.le_of_lt (Int.not_le.1 hshort))
    refine hover later (Int.le_of_eq hlater.symm) ⟨ready, h, Instant.lt_iff.2 ?_⟩
    have hgap := now.gap_add later ready
    omega
  · rintro hlong later hlater ⟨ready', hheld, hearly⟩
    obtain rfl := h.unique hheld
    rw [Instant.lt_iff] at hearly
    have hgap := now.gap_add later ready
    omega

theorem toNat_toldWait (hfits : now.Fits ready) :
    (toldWait now ready).toNat = max 1 ((now.gap ready).toNat / 1000) := by
  have hseconds := hfits.toNat_secondsUntil
  unfold toldWait
  split
  · rename_i hnone
    rw [UInt64.lt_iff_toNat_lt] at hnone
    change _ < 1 at hnone
    show 1 = _
    omega
  · rename_i hsome
    rw [UInt64.lt_iff_toNat_lt] at hsome
    change ¬ _ < 1 at hsome
    omega

/-- **Whether the wait that is told is long enough.**  It is, just where the time left is a number
of whole seconds or no more than one; everywhere else an execution that waits as long as it was told
can be refused again.  One second more is always enough. -/
theorem execute_wait_suffices_iff
    (h : q.execute l schedule shortfall now = .error (.refused (.gracePeriod market wait))) :
    ∃ ready, q.HeldUntil shortfall ready ∧ (now.Fits ready →
      (q.OverAfter l schedule shortfall now wait.toNat ↔
        1000 ∣ now.gap ready ∨ now.gap ready ≤ 1000) ∧
      q.OverAfter l schedule shortfall now (wait.toNat + 1)) := by
  obtain ⟨-, ready, hheld, hearly, rfl⟩ := execute_eq_gracePeriod.1 h
  refine ⟨ready, hheld, fun hfits => ?_⟩
  rw [toNat_toldWait hfits]
  rw [Instant.lt_iff] at hearly
  rw [hheld.overAfter_iff, hheld.overAfter_iff]
  omega

/-- An execution may follow another after ten seconds. -/
def sampleTerms : DeleverageTerms :=
  { DeleverageTerms.standard with gracePeriod := 10 }

/-- A short of size one is to be covered in the first market. -/
def sampleRequest : Shortfall :=
  ⟨⟨1⟩, ⟨9⟩, .short, .one, .ofUInt32 100⟩

/-- An execution succeeds at the epoch, and there is a candidate for another. -/
def sampleGrace : List Operation :=
  [.configure ⟨1⟩ sampleTerms,
    .update (sampleCandidate 1 .one),
    .update (sampleCandidate 2 .one),
    .execute sampleLongs sampleMarkets sampleRequest .epoch]

/-- Seven seconds are left, and they are told. -/
theorem execute_wait_suffices_whole :
    ∃ replies q, (empty 5).run sampleGrace = .ok (replies, q) ∧
      q.execute sampleLongs sampleMarkets sampleRequest ⟨3000⟩
        = .error (.refused (.gracePeriod ⟨1⟩ 7)) ∧
      q.OverAfter sampleLongs sampleMarkets sampleRequest ⟨3000⟩ 7 := by
  obtain ⟨⟨replies, q⟩, hrun, htest⟩ := exists_of_succeedsWith
    (fun r : List (Except DeleverageError Reply) × DeleverageQueue =>
      succeedsWith (· = sampleTerms) (r.2.activeTerms ⟨1⟩) ∧
        r.2.lastExecution? ⟨1⟩ = some .epoch ∧
        failsWith (.refused (.gracePeriod ⟨1⟩ 7))
          (r.2.execute sampleLongs sampleMarkets sampleRequest ⟨3000⟩))
    (x := (empty 5).run sampleGrace) (by decide +kernel)
  obtain ⟨hactive, hlast, hrefused⟩ := of_decide_eq_true htest
  obtain ⟨terms, hactive, hterms⟩ := exists_of_succeedsWith _ hactive
  obtain rfl : terms = sampleTerms := of_decide_eq_true hterms
  have h := eq_error_of_failsWith hrefused
  obtain ⟨ready, hheld, hsuffices⟩ := execute_wait_suffices_iff h
  obtain rfl : ready = ⟨10000⟩ :=
    hheld.unique ⟨sampleTerms, .epoch, hactive, by decide, by decide, hlast, by decide +kernel⟩
  exact ⟨replies, q, hrun, h, (hsuffices (by decide)).1.2 (.inl (by decide))⟩

/-- Nine and a half seconds are left and nine are told; after nine there is half a second left, and
the same execution is refused again. -/
theorem execute_wait_falls_short :
    ∃ replies q, (empty 5).run sampleGrace = .ok (replies, q) ∧
      q.execute sampleLongs sampleMarkets sampleRequest ⟨500⟩
        = .error (.refused (.gracePeriod ⟨1⟩ 9)) ∧
      q.execute sampleLongs sampleMarkets sampleRequest ⟨9500⟩
        = .error (.refused (.gracePeriod ⟨1⟩ 1)) ∧
      ¬ q.OverAfter sampleLongs sampleMarkets sampleRequest ⟨500⟩ 9 := by
  obtain ⟨⟨replies, q⟩, hrun, htest⟩ := exists_of_succeedsWith
    (fun r : List (Except DeleverageError Reply) × DeleverageQueue =>
      failsWith (.refused (.gracePeriod ⟨1⟩ 9))
          (r.2.execute sampleLongs sampleMarkets sampleRequest ⟨500⟩) ∧
        failsWith (.refused (.gracePeriod ⟨1⟩ 1))
          (r.2.execute sampleLongs sampleMarkets sampleRequest ⟨9500⟩))
    (x := (empty 5).run sampleGrace) (by decide +kernel)
  obtain ⟨hfirst, hsecond⟩ := of_decide_eq_true htest
  have hagain := eq_error_of_failsWith hsecond
  exact ⟨replies, q, hrun, eq_error_of_failsWith hfirst, hagain,
    fun hover => hover ⟨9500⟩ (by decide) ⟨_, _, hagain⟩⟩

end DeleverageQueue

end Clearing

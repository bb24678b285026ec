import Clearing.InPlace.Operation
import Clearing.Proofs.InPlace.Components

/-!
Notices put aside.

A ledger tells whoever follows it and asks nothing back.  So an operation comes to the same answer
and the same ledger whoever follows, and what it tells is a list that can be known before it is told
(`posted`).  Putting the notices aside and reading them later is then the same as reading them when
they come, also over operations of which some are refused: `run_deferred`.
-/

namespace Clearing

open Edit

namespace Ledger

namespace InPlace

variable {ω : Type} [Observer ω] {α β : Type}

/-! ### What an operation posts -/

/-- The reply to an operation, the ledger after it, and what it tells. -/
def posted (l : Ledger) : Operation → Except (Failure Refusal) (Posted Reply)
  | .openPosition order schedule now => worded .opened (l.openPosition order schedule now)
  | .modify id sizeDelta collateralDelta price schedule now =>
    worded .modified (l.modify id sizeDelta collateralDelta price schedule now)
  | .close id price now => worded .closed (l.close id price now)
  | .forceReduce id amount price schedule now =>
    worded .reduced (l.forceReduce id amount price schedule now)
  | .refresh id mark now =>
    worded .refreshed (refusing (fun cause => cause) (l.refresh id mark now))
  | .refreshMarket market mark now =>
    worded .marketRefreshed (refusing (fun cause => cause) (l.refreshMarket market mark now))
  | .applyFunding payments index now =>
    inTermsOf .ledger <| (refusing (fun cause => cause) (l.applyFunding payments index now)).map
      fun next => ⟨.fundingApplied, next, []⟩
  | .deleverage queue schedule shortfall now =>
    inTermsOf .deleverage <| (queue.execute l schedule shortfall now).map
      fun r => ⟨.covered r.1, r.2.2, []⟩
where
  /-- Words the result of what is posted as a reply. -/
  worded {α : Type} (reply : α → Reply) (x : Attempt (Posted α)) :
      Except (Failure Refusal) (Posted Reply) :=
    inTermsOf .ledger <| x.map fun p => ⟨reply p.result, p.ledger, p.notices⟩

theorem posting_performs {x : Edit (Observed ω) LedgerError α} {s : Observed ω}
    {y : Attempt (Posted α)} (h : Performs x s s.take y) (reply : α → Reply) :
    Performs (answer.posting reply x) s s.take (posted.worded reply y) :=
  (h.map_as fun _ => rfl).reworded Refusal.ledger

theorem deleverage_performs (l : Ledger) (queue : DeleverageQueue) (schedule : MarginSchedule)
    (shortfall : Shortfall) (now : Instant) :
    Performs (deleverage queue schedule shortfall now) l (fun r => (r.1, r.2.2))
      (queue.execute l schedule shortfall now) := by
  have h : Performs (DeleverageQueue.InPlace.execute schedule shortfall now) ⟨l, queue⟩
      (fun r => (r.1, ⟨r.2.2, r.2.1⟩)) (queue.execute l schedule shortfall now) :=
    DeleverageQueue.execute_performs ⟨l, queue⟩
  generalize queue.execute l schedule shortfall now = y at h
  cases h with
  | done r h => exact .done r (by simp only [deleverage, EStateM.run] at h ⊢; rw [h])
  | refused cause h => exact .refused cause (by simp only [deleverage, EStateM.run] at h ⊢; rw [h])
  | stopped at_ left h =>
    exact .stopped at_ left.ledger (by simp only [deleverage, EStateM.run] at h ⊢; rw [h])

theorem answer_performs (s : Observed ω) (op : Operation) :
    Performs (answer op) s s.take (posted s.ledger op) := by
  cases op with
  | openPosition order schedule now =>
    exact posting_performs (openPosition_performs s order schedule now) .opened
  | modify id sizeDelta collateralDelta price schedule now =>
    exact posting_performs (modify_performs s id sizeDelta collateralDelta price schedule now)
      .modified
  | close id price now => exact posting_performs (close_performs s id price now) .closed
  | forceReduce id amount price schedule now =>
    exact posting_performs (forceReduce_performs s id amount price schedule now) .reduced
  | refresh id mark now => exact posting_performs (refresh_performs s id mark now) .refreshed
  | refreshMarket market mark now =>
    exact posting_performs (refreshMarket_performs s market mark now) .marketRefreshed
  | applyFunding payments index now =>
    have hbooked := (applyFunding_performs s.ledger payments index now).within
      (p := Observed.ledgerPart) (s := s)
    exact (hbooked.map_as fun _ => rfl).reworded Refusal.ledger
  | deleverage queue schedule shortfall now =>
    have hwalked := (deleverage_performs s.ledger queue schedule shortfall now).within
      (p := Observed.ledgerPart) (s := s)
    exact (hwalked.map_as fun _ => rfl).reworded Refusal.deleverage

theorem perform_eq (s : Observed ω) (op : Operation) :
    perform op s = orStay s ((posted s.ledger op).map s.take) :=
  (answer_performs s op).outcome

/-! ### All or nothing -/

theorem posting_eq_worded (reply : α → Reply) (x : Attempt (Posted α)) :
    Ledger.answer.posting reply x
      = (posted.worded reply x).map fun p => (p.result, p.ledger) := by
  cases x with
  | error e => rfl
  | ok p => rfl

theorem answer_eq_posted (l : Ledger) (op : Operation) :
    l.answer op = (posted l op).map fun p => (p.result, p.ledger) := by
  cases op with
  | applyFunding payments index now =>
    dsimp only [Ledger.answer, posted]
    cases l.applyFunding payments index now with
    | error e => rfl
    | ok next => rfl
  | deleverage queue schedule shortfall now =>
    dsimp only [Ledger.answer, posted]
    cases queue.execute l schedule shortfall now with
    | error e => rfl
    | ok r => rfl
  | _ => exact posting_eq_worded _ _

theorem perform_ledger (s : Observed ω) (op : Operation) :
    s.ledger.perform op = (perform op s).map fun r => (r.1, r.2.ledger) := by
  rw [perform_eq, ← orStay_map Observed.ledger]
  unfold Ledger.perform
  rw [answer_eq_posted]
  cases posted s.ledger op with
  | ok p => rfl
  | error e => rfl

/-- Whoever follows the ledger, its operations come to what they come to all or nothing. -/
theorem run_ledger (s : Observed ω) (ops : List Operation) :
    s.ledger.run ops = (run ops s).map fun r => (r.1, r.2.ledger) :=
  inTurn_map Observed.ledger perform_ledger s ops

/-! ### Putting aside and reading later -/

theorem notify_replayInto (observer : ω) (d : Deferred) (notice : Notice) :
    (Observer.notify d notice).replayInto observer
      = Observer.notify (d.replayInto observer) notice :=
  List.foldl_append

theorem foldl_notify_replayInto (observer : ω) (d : Deferred) (notices : List Notice) :
    (notices.foldl Observer.notify d).replayInto observer
      = notices.foldl Observer.notify (d.replayInto observer) := by
  induction notices generalizing d with
  | nil => rfl
  | cons notice notices ih =>
    rw [List.foldl_cons, List.foldl_cons, ih, notify_replayInto]

/-- The state with what was put aside read by an observer. -/
def caughtUp (observer : ω) (s : Observed Deferred) : Observed ω :=
  ⟨s.ledger, s.observer.replayInto observer⟩

/-- One operation tells the same at once and later. -/
theorem perform_caughtUp (observer : ω) (s : Observed Deferred) (op : Operation) :
    perform op (caughtUp observer s)
      = (perform op s).map fun r => (r.1, caughtUp observer r.2) := by
  rw [perform_eq, perform_eq, ← orStay_map (caughtUp observer)]
  congr 1
  dsimp only [caughtUp]
  cases posted s.ledger op with
  | ok p =>
    dsimp only [Except.map, Observed.take]
    rw [foldl_notify_replayInto]
  | error e => rfl

theorem run_caughtUp (observer : ω) (s : Observed Deferred) (ops : List Operation) :
    run ops (caughtUp observer s) = (run ops s).map fun r => (r.1, caughtUp observer r.2) :=
  inTurn_map (caughtUp observer) (perform_caughtUp observer) s ops

/-- **Notices can wait.**  For every ledger, everyone who may follow it (a queue among them) and
every run of operations, of which any may be refused: to put the notices aside and to read them all
at the end comes to the same replies, the same ledger and the same observer as to read each when it
comes.  Where the one run stops, so does the other.  Replies and ledger are those of the run that
tells nobody. -/
theorem run_deferred (l : Ledger) (observer : ω) (ops : List Operation) :
    run ops ⟨l, observer⟩
        = (run ops ⟨l, (⟨[]⟩ : Deferred)⟩).map (fun r =>
          (r.1, ⟨r.2.ledger, r.2.observer.replayInto observer⟩)) ∧
      l.run ops = (run ops ⟨l, observer⟩).map fun r => (r.1, r.2.ledger) :=
  ⟨run_caughtUp observer ⟨l, ⟨[]⟩⟩ ops, run_ledger ⟨l, observer⟩ ops⟩

end InPlace

end Ledger

end Clearing

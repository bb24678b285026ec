import Clearing.InPlace.Deleverage
import Clearing.InPlace.Settlement
import Clearing.Proofs.Decimal.Checked
import Clearing.Proofs.Deleverage.Ranking
import Clearing.Proofs.Deleverage.Walk
import Clearing.Proofs.InPlace.Ledger

/-!
Terms, settlements and deleveraging, in place and all or nothing.

A deleveraging is the one edit that can be refused after it wrote: by then earlier picks are
reduced.  Its walk is therefore compared with the copy of the ledger it keeps, not with the ledger
it works on (`Walks`).
-/

namespace Clearing

open Edit

/-! ### Terms -/

theorem MarginSchedule.InPlace.install_performs (s : MarginSchedule) (market : MarketId)
    (tier : MarginTier) :
    Performs (install market tier) s id (refusing id (s.install market tier)) := by
  unfold MarginSchedule.install
  rw [refusing_bind]
  exact .attempt_bind fun _ _ => .done _ rfl

theorem MarginSchedule.InPlace.setActive_performs (s : MarginSchedule) (market : MarketId)
    (active : Bool) :
    Performs (setActive market active) s (fun next => ((), next))
      (refusing id (s.setActive market active)) := by
  unfold MarginSchedule.setActive setActive
  refine .read_bind ?_
  cases s.tier? market with
  | none => exact .attempt_refuse
  | some tier => exact .done _ rfl

theorem FundingBook.InPlace.configure_performs (b : FundingBook) (market : MarketId)
    (terms : FundingTerms) (now : Instant) :
    Performs (configure market terms now) b id (refusing id (b.configure market terms now)) := by
  unfold FundingBook.configure
  rw [refusing_bind]
  exact .attempt_bind fun _ _ => .done _ rfl

/-! ### Settlements -/

theorem FundingBook.InPlace.settle_performs (s : FundedLedger) (market : MarketId)
    (now : Instant) :
    Performs (settle market now) s (fun r => (r.1, ⟨r.2.1, r.2.2⟩))
      (s.book.settle market s.ledger now) := by
  refine .check_bind fun terms _ => .read_bind <| .read_bind <| .ite (fun _ => ?_) fun _ => ?_
  · exact .done _ rfl
  · refine .unless fun _ => .attempt_bind fun rate _ => .check_bind fun plan _ => ?_
    refine .attempt_bind fun next _ => ?_
    have hbooked := ((Ledger.InPlace.applyFunding_performs s.ledger
      (plan.payments.map fun p => (p.position, p.amount)) next.cumulativeIndex now).reworded
        FundingError.booking).within (p := FundedLedger.ledgerPart) (s := s)
    rw [inTermsOf_refusing] at hbooked
    exact hbooked.commit fun l _ => ⟨_, rfl, rfl⟩

/-! ### Deleveraging -/

namespace DeleverageQueue

theorem InPlace.configure_performs (q : DeleverageQueue) (market : MarketId)
    (terms : DeleverageTerms) :
    Performs (InPlace.configure market terms) q id (refusing id (q.configure market terms)) := by
  unfold DeleverageQueue.configure
  rw [refusing_bind]
  exact .attempt_bind fun _ _ => .done _ rfl

theorem InPlace.toggle_performs (q : DeleverageQueue) (market : MarketId) :
    Performs (InPlace.toggle market) q id (refusing id (q.toggle market)) := by
  unfold DeleverageQueue.toggle InPlace.toggle
  refine .read_bind ?_
  cases q.terms? market with
  | none => exact .attempt_refuse
  | some terms => exact .done _ rfl

variable {shortfall : Shortfall} {schedule : MarginSchedule} {now : Instant}

/-- What a walk has counted, without the ledger. -/
def Walk.tally (w : Walk) : InPlace.Tally :=
  ⟨w.remaining, w.closed, w.deleveraged⟩

/-- How a walk in place ends, against the walk. -/
inductive Walks (checkpoint : Ledger) : Except (Failure DeleverageError) Walk →
    EStateM.Result (Failure DeleverageError) (Observed Deferred) InPlace.Tally → Prop
  | done (w : Walk) (d : Deferred) : Walks checkpoint (.ok w) (.ok w.tally ⟨w.ledger, d⟩)
  | refused (cause : DeleverageError) (d : Deferred) :
    Walks checkpoint (.error (.refused cause)) (.error (.refused cause) ⟨checkpoint, d⟩)
  | stopped (at_ : Stop) (left : Observed Deferred) :
    Walks checkpoint (.error (.stopped at_)) (.error (.stopped at_) left)

/-- What can only stop may come after a write. -/
theorem Walks.attempt_bind {checkpoint : Ledger} {α : Type} {x : Except (Failure DeleverageError) α}
    {f : α → Except (Failure DeleverageError) Walk}
    {k : α → Edit (Observed Deferred) DeleverageError InPlace.Tally} {s : Observed Deferred}
    (hends : (∃ a, x = .ok a) ∨ ∃ at_, x = .error (.stopped at_))
    (h : ∀ a, Walks checkpoint (f a) ((k a).run s)) :
    Walks checkpoint (x >>= f) ((attempt x >>= k).run s) := by
  rcases hends with ⟨a, rfl⟩ | ⟨at_, rfl⟩
  · exact h a
  · exact .stopped at_ s

/-- Down the picks the ledger in place is the ledger of the walk; the checkpoint stays what it was
and is there again after a refusal. -/
theorem walk_walks (checkpoint : Ledger) (picks : List (Nat × Candidate)) (w : Walk)
    (d : Deferred) :
    Walks checkpoint (picks.foldlM (Walk.take shortfall schedule now) w)
      ((InPlace.walk checkpoint shortfall schedule now picks w.tally).run ⟨w.ledger, d⟩) := by
  induction picks generalizing w d with
  | nil => exact .done w d
  | cons pick picks ih =>
    by_cases hdone : w.remaining ≤ .zero
    · have hdone' : w.tally.remaining ≤ .zero := hdone
      rw [foldlM_take_of_done hdone, InPlace.walk, if_pos hdone']
      exact .done w d
    have hdone' : ¬w.tally.remaining ≤ .zero := hdone
    rw [List.foldlM_cons, Walk.take, InPlace.walk, if_neg hdone, if_neg hdone', run_read_bind]
    dsimp only [Walk.tally]
    cases hp : w.ledger.position? pick.2.position with
    | none => exact ih w d
    | some p =>
      have hforced := Ledger.InPlace.forceReduce_performs ⟨w.ledger, d⟩ pick.2.position
        (w.remaining.min p.size) shortfall.price schedule now
      dsimp only at hforced ⊢
      rw [EStateM.run_bind, run_orRestore, run_reworded]
      generalize w.ledger.forceReduce pick.2.position (w.remaining.min p.size) shortfall.price
        schedule now = y at hforced ⊢
      cases hforced with
      | refused cause hrun =>
        rw [hrun]
        exact .refused (.forcedClose cause) d
      | stopped at_ left hrun =>
        rw [hrun]
        exact .stopped at_ left
      | done posted hrun =>
        rw [hrun]
        simp only [inTermsOf, Except.mapError, bind_assoc, pure_bind]
        exact .attempt_bind (Decimal.subOrStop_ends _ _) fun remaining =>
          .attempt_bind (Decimal.addOrStop_ends _ _) fun closed => ih _ _

theorem run_deferring {ω ε α : Type} (x : Edit (Observed Deferred) ε α) (s : Observed ω) :
    (InPlace.deferring x).run s = match x.run ⟨s.ledger, ⟨[]⟩⟩ with
      | .ok a next => .ok a { s with ledger := next.ledger }
      | .error e left => .error e { s with ledger := left.ledger } :=
  rfl

/-- A walk whose checkpoint is the ledger it starts from. -/
theorem deferring_performs (s : Observed DeleverageQueue) (picks : List (Nat × Candidate)) :
    Performs (InPlace.deferring
        (InPlace.walk s.ledger shortfall schedule now picks ⟨shortfall.size, .zero, []⟩)) s
      (fun w => (w.tally, { s with ledger := w.ledger }))
      (picks.foldlM (Walk.take shortfall schedule now) (.start s.ledger shortfall)) := by
  have hrun := run_deferring
    (InPlace.walk s.ledger shortfall schedule now picks ⟨shortfall.size, .zero, []⟩) s
  have hwalk : Walks s.ledger
      (picks.foldlM (Walk.take shortfall schedule now) (.start s.ledger shortfall))
      ((InPlace.walk s.ledger shortfall schedule now picks ⟨shortfall.size, .zero, []⟩).run
        ⟨s.ledger, ⟨[]⟩⟩) :=
    walk_walks s.ledger picks (.start s.ledger shortfall) ⟨[]⟩
  revert hwalk hrun
  generalize (InPlace.walk s.ledger shortfall schedule now picks ⟨shortfall.size, .zero, []⟩).run
    ⟨s.ledger, ⟨[]⟩⟩ = result
  generalize picks.foldlM (Walk.take shortfall schedule now) (.start s.ledger shortfall) = y
  intro hrun hwalk
  cases hwalk with
  | done w d => exact .done w hrun
  | refused cause d => exact .refused cause hrun
  | stopped at_ left => exact .stopped at_ _ hrun

theorem run_forM_remove (lane : Lane) (ids : List PositionId) (s : Observed DeleverageQueue) :
    (ids.forM fun id => InPlace.write (·.remove lane id)).run s
      = .ok () { s with observer := ids.foldl (fun q id => q.remove lane id) s.observer } := by
  induction ids generalizing s with
  | nil => rfl
  | cons id ids ih => exact ih _

/-- Taking candidates out touches nothing but the rankings. -/
theorem foldl_remove_eq (q : DeleverageQueue) (lane : Lane) (ids : List PositionId) :
    ids.foldl (fun q id => q.remove lane id) q =
      { q with rankings := (ids.foldl (fun q id => q.remove lane id) q).rankings } := by
  induction ids generalizing q with
  | nil => rfl
  | cons id ids ih =>
    rw [List.foldl_cons, ih, remove_eq]

theorem execute_performs (s : Observed DeleverageQueue) :
    Performs (InPlace.execute schedule shortfall now) s (fun r => (r.1, ⟨r.2.2, r.2.1⟩))
      (s.observer.execute s.ledger schedule shortfall now) := by
  refine .check_bind fun terms _ => .read_bind <| .read_bind <| .unless fun _ => .read_bind ?_
  refine (deferring_performs s _).commit fun w _ => ⟨_, rfl, ?_⟩
  rw [EStateM.run_bind, run_forM_remove]
  dsimp only [Walk.tally]
  rw [foldl_remove_eq]
  rfl

end DeleverageQueue

end Clearing

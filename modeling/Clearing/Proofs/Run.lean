import Clearing.Proofs.Failure
import Clearing.Run

/-!
What is true of every run, whatever its steps are.

A run is taken apart at its first step (`inTurn_cons_eq_ok`).  What every step keeps, it keeps
(`inTurn_invariant`), and where a view of the states goes along with the steps, it goes along with
the run (`inTurn_map`).
-/

namespace Clearing

variable {σ τ ο ε ρ α : Type}

/-- A step is answered, or it is refused and the state is as it was. -/
theorem orStay_eq_ok {s next : σ} {x : Except (Failure ε) (ρ × σ)} {result : Except ε ρ} :
    orStay s x = .ok (result, next) ↔
      (∃ reply, result = .ok reply ∧ x = .ok (reply, next)) ∨
        ∃ cause, result = .error cause ∧ x = .error (.refused cause) ∧ next = s := by
  constructor
  · intro h
    unfold orStay at h
    split at h
    · cases h
      exact .inl ⟨_, rfl, rfl⟩
    · cases h
      exact .inr ⟨_, rfl, rfl, rfl⟩
    · cases h
  · rintro (⟨reply, rfl, rfl⟩ | ⟨cause, rfl, rfl, rfl⟩)
    · rfl
    · rfl

/-- A view of the states shows the same step. -/
theorem orStay_map (view : σ → τ) (s : σ) (x : Except (Failure ε) (ρ × σ)) :
    orStay (view s) (x.map fun r => (r.1, view r.2))
      = (orStay s x).map fun r => (r.1, view r.2) := by
  rcases x with (cause | at_) | r
  · rfl
  · rfl
  · rfl

section

variable {step : σ → ο → Except Stop (α × σ)} {s last : σ} {op : ο} {ops : List ο}

/-- A run that comes to an end has taken its first step, and gone on from there. -/
theorem inTurn_cons_eq_ok {results : List α} :
    inTurn step s (op :: ops) = .ok (results, last) ↔
      ∃ result next rest, step s op = .ok (result, next) ∧
        inTurn step next ops = .ok (rest, last) ∧ results = result :: rest := by
  simp only [inTurn, bind_eq_ok, pure_eq_ok, Prod.mk.injEq]
  constructor
  · rintro ⟨⟨result, next⟩, hstep, ⟨rest, last'⟩, hrun, rfl, rfl⟩
    exact ⟨result, next, rest, hstep, hrun, rfl⟩
  · rintro ⟨result, next, rest, hstep, hrun, rfl⟩
    exact ⟨⟨result, next⟩, hstep, ⟨rest, last⟩, hrun, rfl, rfl⟩

/-- **What every step keeps, every run keeps.** -/
theorem inTurn_invariant {P : σ → Prop}
    (hstep : ∀ s, P s → ∀ op ∈ ops, ∀ result next, step s op = .ok (result, next) → P next)
    {results : List α} (hs : P s) (hrun : inTurn step s ops = .ok (results, last)) : P last := by
  induction ops generalizing s results with
  | nil =>
    cases hrun
    exact hs
  | cons op ops ih =>
    obtain ⟨result, next, rest, hfirst, hrest, -⟩ := inTurn_cons_eq_ok.1 hrun
    have hnext := hstep s hs op (List.mem_cons_self ..) result next hfirst
    exact ih (fun s hs op hop => hstep s hs op (List.mem_cons_of_mem _ hop)) hnext hrest

/-- Runs come to the same where each of their steps does, as far as a view of the states shows. -/
theorem inTurn_map {step' : τ → ο → Except Stop (α × τ)} (view : σ → τ)
    (hstep : ∀ s op, step' (view s) op = (step s op).map fun r => (r.1, view r.2)) (s : σ)
    (ops : List ο) :
    inTurn step' (view s) ops = (inTurn step s ops).map fun r => (r.1, view r.2) := by
  induction ops generalizing s with
  | nil => rfl
  | cons op ops ih =>
    unfold inTurn
    rw [hstep]
    cases step s op with
    | error at_ => rfl
    | ok r =>
      show (inTurn step' (view r.2) ops >>= _) = (inTurn step r.2 ops >>= _).map _
      rw [ih]
      cases inTurn step r.2 ops with
      | error at_ => rfl
      | ok rest => rfl

end

end Clearing

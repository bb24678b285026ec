import Clearing.InPlace.Edit
import Clearing.Proofs.Run

/-!
Edits against calls.

A call gives an answer and the next state, or it fails.  An edit performs it where it comes to
the same answer in the same state, or fails with the same cause, and where it is refused it leaves
the state it found (`Edit.Performs`).  Steps that write nothing carry this along as long as none
has written (`Performs.check_bind`); what follows the first write may not be refused any more
(`Performs.commit`).
-/

namespace Clearing

namespace Edit

variable {σ τ ε δ α β γ : Type}

/-- An edit does in a state what a call does.  `out` reads the result of the call as an answer and
a state. -/
inductive Performs (x : Edit σ ε α) (s : σ) (out : β → α × σ) : Except (Failure ε) β → Prop
  | done (b : β) (run : x.run s = .ok (out b).1 (out b).2) : Performs x s out (.ok b)
  | refused (cause : ε) (run : x.run s = .error (.refused cause) s) :
    Performs x s out (.error (.refused cause))
  | stopped (at_ : Stop) (left : σ) (run : x.run s = .error (.stopped at_) left) :
    Performs x s out (.error (.stopped at_))

/-- As a step, an edit comes to what the call does that it performs. -/
theorem Performs.outcome {x : Edit σ ε α} {s : σ} {out : β → α × σ} {y : Except (Failure ε) β}
    (h : Performs x s out y) : x.outcome s = orStay s (y.map out) := by
  unfold Edit.outcome
  cases h with
  | done b run => rw [show x s = _ from run]; rfl
  | refused cause run => rw [show x s = _ from run]; rfl
  | stopped at_ left run => rw [show x s = _ from run]; rfl

/-! ### Steps -/

theorem run_check (f : σ → Except (Failure ε) α) (s : σ) :
    (check f).run s = match f s with
      | .ok a => .ok a s
      | .error e => .error e s :=
  rfl

@[simp] theorem run_read_bind (f : σ → β) (k : β → Edit σ ε α) (s : σ) :
    (read f >>= k).run s = (k (f s)).run s :=
  rfl

theorem run_reworded (f : ε → δ) (x : Edit σ ε α) (s : σ) :
    (x.reworded f).run s = match x.run s with
      | .ok a next => .ok a next
      | .error e left => .error (e.map f) left :=
  rfl

theorem run_within (p : Part σ τ) (x : Edit τ ε α) (s : σ) :
    (x.within p).run s = match x.run (p.get s) with
      | .ok a t => .ok a (p.set s t)
      | .error e t => .error e (p.set s t) :=
  rfl

theorem run_orRestore (x : Edit σ ε α) (restore : σ → σ) (s : σ) :
    (x.orRestore restore).run s = match x.run s with
      | .error (.refused cause) left => .error (.refused cause) (restore left)
      | result => result :=
  rfl

theorem check_bind_check {f : σ → Except (Failure ε) α} {g : α → σ → Except (Failure ε) β} :
    (check f >>= fun a => check (g a)) = check fun s => f s >>= fun a => g a s := by
  funext s
  show (check f >>= fun a => check (g a)).run s = (check fun s => f s >>= fun a => g a s).run s
  rw [EStateM.run_bind, run_check, run_check]
  cases f s with
  | error e => rfl
  | ok a => rfl

theorem pure_eq_check (a : α) : (pure a : Edit σ ε α) = check fun _ => pure a :=
  rfl

/-- Many checks are one. -/
theorem mapM_check (f : β → σ → Except (Failure ε) α) (xs : List β) :
    (xs.mapM fun x => check (f x)) = check fun s => xs.mapM fun x => f x s := by
  induction xs with
  | nil => exact pure_eq_check []
  | cons x xs ih =>
    simp only [List.mapM_cons, ih, pure_eq_check, check_bind_check]

theorem run_forM_write (f : α → σ → σ) (xs : List α) (s : σ) :
    (xs.forM fun x => (write (f x) : Edit σ ε Unit)).run s
      = .ok () (xs.foldl (fun s x => f x s) s) := by
  induction xs generalizing s with
  | nil => rfl
  | cons x xs ih => exact ih (f x s)

/-! ### Performing -/

variable {s : σ} {x : Edit σ ε α} {out : β → α × σ}

/-- A refused edit leaves the state it found. -/
theorem Performs.keeps {y : Except (Failure ε) β} (h : Performs x s out y) {cause : ε} {left : σ}
    (hrun : x.run s = .error (.refused cause) left) : left = s := by
  cases h with
  | done b h => rw [h] at hrun; cases hrun
  | refused c h => rw [h] at hrun; cases hrun; rfl
  | stopped at_ l h => rw [h] at hrun; cases hrun

theorem Performs.of_run_eq {x' : Edit σ ε α} {y : Except (Failure ε) β}
    (hrun : x.run s = x'.run s) (h : Performs x' s out y) : Performs x s out y := by
  cases h with
  | done b h => exact .done b (hrun.trans h)
  | refused cause h => exact .refused cause (hrun.trans h)
  | stopped at_ left h => exact .stopped at_ left (hrun.trans h)

theorem Performs.read_bind {f : σ → γ} {k : γ → Edit σ ε α} {y : Except (Failure ε) β}
    (h : Performs (k (f s)) s out y) : Performs (read f >>= k) s out y :=
  h.of_run_eq (run_read_bind f k s)

theorem Performs.check_bind {f : σ → Except (Failure ε) γ} {k : γ → Edit σ ε α}
    {g : γ → Except (Failure ε) β} (h : ∀ a, f s = .ok a → Performs (k a) s out (g a)) :
    Performs (check f >>= k) s out (f s >>= g) := by
  have hrun := EStateM.run_bind (check f) k (s := s)
  rw [run_check] at hrun
  cases hf : f s with
  | ok a =>
    rw [hf] at hrun
    exact (h a hf).of_run_eq hrun
  | error e =>
    rw [hf] at hrun
    cases e with
    | refused cause => exact .refused cause hrun
    | stopped at_ => exact .stopped at_ s hrun

theorem Performs.attempt_bind {z : Except (Failure ε) γ} {k : γ → Edit σ ε α}
    {g : γ → Except (Failure ε) β} (h : ∀ a, z = .ok a → Performs (k a) s out (g a)) :
    Performs (attempt z >>= k) s out (z >>= g) :=
  check_bind h

theorem Performs.attempt_refuse {cause : ε} :
    Performs (attempt (refuse cause)) s out (refuse cause) :=
  .refused cause rfl

theorem Performs.ite {c : Prop} [Decidable c] {x' : Edit σ ε α} {y y' : Except (Failure ε) β}
    (h : c → Performs x s out y) (h' : ¬c → Performs x' s out y') :
    Performs (if c then x else x') s out (if c then y else y') := by
  by_cases hc : c
  · rw [if_pos hc, if_pos hc]
    exact h hc
  · rw [if_neg hc, if_neg hc]
    exact h' hc

/-- A check that comes before everything else. -/
theorem Performs.unless {c : Prop} [Decidable c] {cause : ε} {k : γ → Edit σ ε α}
    {g : γ → Except (Failure ε) β} {y : Except (Failure ε) β} (h : ¬c → Performs x s out y) :
    Performs (if c then attempt (refuse cause) >>= k else x) s out
      (if c then refuse cause >>= g else y) :=
  .ite (fun _ => .attempt_bind fun _ h => (refuse_ne_ok h).elim) h

/-- What follows an edit that wrote must come to an end. -/
theorem Performs.commit {x : Edit σ ε γ} {out : β → γ × σ} {y : Except (Failure ε) β}
    {k : γ → Edit σ ε α} {β' : Type} {out' : β' → α × σ} {g : β → Except (Failure ε) β'}
    (h : Performs x s out y)
    (hk : ∀ b, y = .ok b →
      ∃ b', g b = .ok b' ∧ (k (out b).1).run (out b).2 = .ok (out' b').1 (out' b').2) :
    Performs (x >>= k) s out' (y >>= g) := by
  have hbind := EStateM.run_bind x k (s := s)
  cases h with
  | done b hrun =>
    obtain ⟨b', hb', hk⟩ := hk b rfl
    rw [hrun] at hbind
    show Performs _ s out' (g b)
    rw [hb']
    exact .done b' (hbind.trans hk)
  | refused cause hrun =>
    rw [hrun] at hbind
    exact .refused cause hbind
  | stopped at_ left hrun =>
    rw [hrun] at hbind
    exact .stopped at_ left hbind

/-- An answer in other words, for a result in other words. -/
theorem Performs.map_as {β' : Type} {y : Except (Failure ε) β} (h : Performs x s out y)
    {f : α → γ} {g : β → β'} {out' : β' → γ × σ}
    (hout : ∀ b, out' (g b) = (f (out b).1, (out b).2)) :
    Performs (f <$> x) s out' (y.map g) := by
  have hrun := EStateM.run_bind x (fun a => pure (f a)) (s := s)
  rw [bind_pure_comp] at hrun
  cases h with
  | done b h => exact .done _ (by rw [hrun, h, hout]; rfl)
  | refused cause h => exact .refused cause (by rw [hrun, h])
  | stopped at_ left h => exact .stopped at_ left (by rw [hrun, h])

theorem Performs.map {y : Except (Failure ε) β} (h : Performs x s out y) (f : α → γ) :
    Performs (f <$> x) s id (y.map fun b => (f (out b).1, (out b).2)) :=
  h.map_as fun _ => rfl

theorem Performs.reworded {y : Except (Failure ε) β} (h : Performs x s out y) (f : ε → δ) :
    Performs (x.reworded f) s out (inTermsOf f y) := by
  have hrun := run_reworded f x s
  cases h with
  | done b h => exact .done b (by rw [hrun, h])
  | refused cause h => exact .refused (f cause) (by rw [hrun, h]; rfl)
  | stopped at_ left h => exact .stopped at_ left (by rw [hrun, h]; rfl)

/-- Work on a part leaves the rest, and where it is refused, all. -/
theorem Performs.within {x : Edit τ ε α} {p : Part σ τ} {out : β → α × τ}
    {y : Except (Failure ε) β} (h : Performs x (p.get s) out y) :
    Performs (x.within p) s (fun b => ((out b).1, p.set s (out b).2)) y := by
  have hrun := run_within p x s
  cases h with
  | done b h => exact .done b (by rw [hrun, h])
  | refused cause h => exact .refused cause (by rw [hrun, h]; simp only [p.set_get])
  | stopped at_ left h => exact .stopped at_ (p.set s left) (by rw [hrun, h])

/-! ### How a run ends -/

/-- Whether a run comes to an answer and a state that pass a test. -/
def comesTo (test : α → σ → Bool) : EStateM.Result (Failure ε) σ α → Bool
  | .ok a s => test a s
  | .error _ _ => false

theorem exists_of_comesTo {test : α → σ → Bool} {r : EStateM.Result (Failure ε) σ α}
    (h : comesTo test r = true) : ∃ a s, r = .ok a s ∧ test a s = true := by
  cases r with
  | ok a s => exact ⟨a, s, rfl, h⟩
  | error e s => cases h

/-- Whether a run is refused for a cause. -/
def refusedFor [DecidableEq ε] (cause : ε) : EStateM.Result (Failure ε) σ α → Bool
  | .ok _ _ => false
  | .error e _ => decide (e = .refused cause)

theorem exists_of_refusedFor [DecidableEq ε] {cause : ε} {r : EStateM.Result (Failure ε) σ α}
    (h : refusedFor cause r = true) : ∃ left, r = .error (.refused cause) left := by
  cases r with
  | ok a s => cases h
  | error e left => exact ⟨left, by rw [of_decide_eq_true h]⟩

/-! ### All or nothing -/

/-- An edit carries out a call whole or not at all: it comes to what the call comes to, and where
it is refused it leaves the state it found. -/
structure AllOrNothing (x : Edit σ ε α) (call : σ → Except (Failure ε) (α × σ)) : Prop where
  performs : ∀ s, Performs x s id (call s)
  kept : ∀ s cause left, x.run s = .error (.refused cause) left → left = s

theorem AllOrNothing.of_performs {call : σ → Except (Failure ε) β} {out : σ → β → α × σ}
    (h : ∀ s, Performs x s (out s) (call s)) :
    AllOrNothing x fun s => (call s).map (out s) := by
  constructor
  · intro s
    have hs := h s
    generalize call s = y at hs
    cases hs with
    | done b h => exact .done _ h
    | refused cause h => exact .refused cause h
    | stopped at_ left h => exact .stopped at_ left h
  · intro s cause left hrun
    exact (h s).keeps hrun

theorem AllOrNothing.of_performs_id {call : σ → Except (Failure ε) (α × σ)}
    (h : ∀ s, Performs x s id (call s)) : AllOrNothing x call :=
  ⟨h, fun s _ _ hrun => (h s).keeps hrun⟩

end Edit

end Clearing

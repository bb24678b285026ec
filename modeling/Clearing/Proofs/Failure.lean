import Clearing.Failure
import Mathlib.Data.List.Forall2

/-!
Taking calls apart.

A call is a chain of steps, each of which can fail.  It succeeds just when every step does, and
it fails with what the first failing step fails with.  These two facts, for each way of putting
steps together, are all that later proofs use to look inside a call.
-/

namespace Clearing

variable {ε δ α β : Type}

/-! ### Success -/

@[simp] theorem bind_eq_ok {x : Except ε α} {f : α → Except ε β} {b : β} :
    x >>= f = .ok b ↔ ∃ a, x = .ok a ∧ f a = .ok b := by
  cases x with
  | error e => simp [bind, Except.bind]
  | ok a => simp [bind, Except.bind]

/-- A check passes, or nothing after it counts. -/
theorem check_bind_eq_ok {x : Except ε Unit} {y : Except ε β} {b : β} :
    (x >>= fun _ => y) = .ok b ↔ x = .ok () ∧ y = .ok b := by
  cases x with
  | error e => simp [bind, Except.bind]
  | ok u => simp [bind, Except.bind]

@[simp] theorem pure_eq_ok {a b : α} : (pure a : Except ε α) = .ok b ↔ a = b := by
  simp [pure, Except.pure]

@[simp] theorem throw_ne_ok {e : ε} {a : α} : (throw e : Except ε α) ≠ .ok a :=
  nofun

@[simp] theorem mapError_eq_ok {f : ε → δ} {x : Except ε α} {a : α} :
    x.mapError f = .ok a ↔ x = .ok a := by
  cases x <;> simp [Except.mapError]

@[simp] theorem map_eq_ok {f : α → β} {x : Except ε α} {b : β} :
    x.map f = .ok b ↔ ∃ a, x = .ok a ∧ f a = b := by
  cases x <;> simp [Except.map]

@[simp] theorem refusing_eq_ok {f : ε → δ} {x : Except ε α} {a : α} :
    refusing f x = .ok a ↔ x = .ok a :=
  mapError_eq_ok

@[simp] theorem inTermsOf_eq_ok {f : ε → δ} {x : Except (Failure ε) α} {a : α} :
    inTermsOf f x = .ok a ↔ x = .ok a :=
  mapError_eq_ok

@[simp] theorem refuse_ne_ok {e : ε} {a : α} : (refuse e : Except (Failure ε) α) ≠ .ok a :=
  nofun

/-- A call that starts with a check goes on only where the check finds nothing. -/
@[simp] theorem ite_throw_eq_ok {c : Prop} [Decidable c] {e : ε} {f : α → Except ε β}
    {y : Except ε β} {b : β} :
    (if c then throw e >>= f else y) = .ok b ↔ ¬c ∧ y = .ok b := by
  by_cases h : c <;> simp [h]

@[simp] theorem ite_refuse_eq_ok {c : Prop} [Decidable c] {e : ε}
    {f : α → Except (Failure ε) β} {y : Except (Failure ε) β} {b : β} :
    (if c then refuse e >>= f else y) = .ok b ↔ ¬c ∧ y = .ok b := by
  by_cases h : c <;> simp [h]

/-- A list of calls succeeds when each of them does, and gives their results in order. -/
theorem mapM_eq_ok {f : α → Except ε β} {xs : List α} {ys : List β} :
    xs.mapM f = .ok ys ↔ List.Forall₂ (fun x y => f x = .ok y) xs ys := by
  induction xs generalizing ys with
  | nil =>
    rw [List.mapM_nil, pure_eq_ok, List.forall₂_nil_left_iff]
    exact eq_comm
  | cons x xs ih =>
    rw [List.mapM_cons, bind_eq_ok]
    simp only [bind_eq_ok, ih, pure_eq_ok]
    constructor
    · rintro ⟨y, hy, ys, hys, rfl⟩
      exact .cons hy hys
    · rintro ⟨⟩
      rename_i y ys hy hys
      exact ⟨y, hy, ys, hys, rfl⟩

theorem exists_of_forall₂ {R : α → β → Prop} {xs : List α} {ys : List β}
    (h : List.Forall₂ R xs ys) {y : β} (hy : y ∈ ys) : ∃ x ∈ xs, R x y := by
  induction h with
  | nil => cases hy
  | cons hxy _ ih =>
    rcases List.mem_cons.1 hy with rfl | hy
    · exact ⟨_, List.mem_cons_self .., hxy⟩
    · obtain ⟨x, hx, hxy⟩ := ih hy
      exact ⟨x, List.mem_cons_of_mem _ hx, hxy⟩

/-- What every successful step keeps, a successful fold keeps. -/
theorem foldlM_invariant {f : β → α → Except ε β} {P : β → Prop} {xs : List α}
    (hstep : ∀ b, ∀ a ∈ xs, ∀ b', P b → f b a = .ok b' → P b') {b b' : β} (hb : P b)
    (h : xs.foldlM f b = .ok b') : P b' := by
  induction xs generalizing b with
  | nil =>
    rw [List.foldlM_nil, pure_eq_ok] at h
    exact h ▸ hb
  | cons a xs ih =>
    rw [List.foldlM_cons, bind_eq_ok] at h
    obtain ⟨next, hnext, h⟩ := h
    have hkeep := hstep b a (List.mem_cons_self ..) next hb hnext
    exact ih (fun b a ha => hstep b a (List.mem_cons_of_mem _ ha)) hkeep h

/-- Whether a call succeeds with a result that passes a test. -/
def succeedsWith (test : α → Bool) : Except ε α → Bool
  | .ok a => test a
  | .error _ => false

theorem exists_of_succeedsWith (test : α → Bool) {x : Except ε α}
    (h : succeedsWith test x = true) : ∃ a, x = .ok a ∧ test a = true := by
  cases x with
  | error e => cases h
  | ok a => exact ⟨a, rfl, h⟩

/-- Calls that take the same step agree up to the wording of their results, if what follows the
step does. -/
theorem bind_eq_map_bind {γ : Type} {x : Except ε α} {f : α → Except ε γ} {g : α → Except ε β}
    {word : β → γ} (h : ∀ a, f a = (g a).map word) : x >>= f = (x >>= g).map word := by
  cases x with
  | error e => rfl
  | ok a => exact h a

/-! ### Refusing in the terms of another -/

theorem refusing_bind (f : ε → δ) (x : Except ε α) (g : α → Except ε β) :
    refusing f (x >>= g) = refusing f x >>= fun a => refusing f (g a) := by
  cases x with
  | error e => rfl
  | ok a => rfl

theorem refusing_mapError {ι : Type} (f : ε → δ) (g : ι → ε) (x : Except ι α) :
    refusing f (x.mapError g) = refusing (fun cause => f (g cause)) x := by
  cases x with
  | error e => rfl
  | ok a => rfl

theorem inTermsOf_refusing {ι : Type} (f : ε → δ) (g : ι → ε) (x : Except ι α) :
    inTermsOf f (refusing g x) = refusing (fun cause => f (g cause)) x := by
  cases x with
  | error e => rfl
  | ok a => rfl

theorem refusing_mapM (f : ε → δ) (g : β → Except ε α) (xs : List β) :
    refusing f (xs.mapM g) = xs.mapM fun x => refusing f (g x) := by
  induction xs with
  | nil => rfl
  | cons x xs ih =>
    simp only [List.mapM_cons, refusing_bind, ih]
    rfl

/-! ### Failure -/

/-- Whether a call fails with a given failure. -/
def failsWith [DecidableEq ε] (e : ε) : Except ε α → Bool
  | .ok _ => false
  | .error e' => decide (e' = e)

theorem eq_error_of_failsWith [DecidableEq ε] {e : ε} {x : Except ε α}
    (h : failsWith e x = true) : x = .error e := by
  cases x with
  | ok a => cases h
  | error e' => rw [of_decide_eq_true h]

theorem bind_eq_error {x : Except ε α} {f : α → Except ε β} {e : ε} :
    x >>= f = .error e ↔ x = .error e ∨ ∃ a, x = .ok a ∧ f a = .error e := by
  cases x with
  | error e' => simp [bind, Except.bind]
  | ok a => simp [bind, Except.bind]

/-- A call that starts with a check fails with it where the check finds something. -/
theorem ite_throw_eq_error {c : Prop} [Decidable c] {e e' : ε} {f : α → Except ε β}
    {y : Except ε β} :
    (if c then throw e >>= f else y) = .error e' ↔ c ∧ e = e' ∨ ¬c ∧ y = .error e' := by
  by_cases h : c <;> simp [h, bind, Except.bind, throw, throwThe, MonadExceptOf.throw]

theorem ite_refuse_eq_error {c : Prop} [Decidable c] {e : ε} {e' : Failure ε}
    {f : α → Except (Failure ε) β} {y : Except (Failure ε) β} :
    (if c then refuse e >>= f else y) = .error e' ↔ c ∧ .refused e = e' ∨ ¬c ∧ y = .error e' :=
  ite_throw_eq_error

/-- A list of calls fails with what one of them fails with. -/
theorem mapM_eq_error {f : α → Except ε β} {xs : List α} {e : ε} (h : xs.mapM f = .error e) :
    ∃ x ∈ xs, f x = .error e := by
  induction xs with
  | nil => cases h
  | cons x xs ih =>
    rw [List.mapM_cons] at h
    rcases bind_eq_error.1 h with hx | ⟨y, -, h⟩
    · exact ⟨x, List.mem_cons_self .., hx⟩
    · rcases bind_eq_error.1 h with hxs | ⟨ys, -, h⟩
      · obtain ⟨x', hx', hfail⟩ := ih hxs
        exact ⟨x', List.mem_cons_of_mem _ hx', hfail⟩
      · cases h

/-- A fold fails with what one of its steps fails with. -/
theorem foldlM_eq_error {f : β → α → Except ε β} {xs : List α} {b : β} {e : ε}
    (h : xs.foldlM f b = .error e) : ∃ b', ∃ x ∈ xs, f b' x = .error e := by
  induction xs generalizing b with
  | nil => cases h
  | cons x xs ih =>
    rw [List.foldlM_cons] at h
    rcases bind_eq_error.1 h with hx | ⟨next, -, h⟩
    · exact ⟨b, x, List.mem_cons_self .., hx⟩
    · obtain ⟨b', x', hx', hfail⟩ := ih h
      exact ⟨b', x', List.mem_cons_of_mem _ hx', hfail⟩

theorem exists_mapM {f : α → Except ε β} {xs : List α} (h : ∀ x ∈ xs, ∃ y, f x = .ok y) :
    ∃ ys, xs.mapM f = .ok ys := by
  cases hxs : xs.mapM f with
  | ok ys => exact ⟨ys, rfl⟩
  | error e =>
    obtain ⟨x, hx, hfail⟩ := mapM_eq_error hxs
    obtain ⟨y, hy⟩ := h x hx
    rw [hy] at hfail
    cases hfail

theorem mapError_eq_error {f : ε → δ} {x : Except ε α} {e : δ} :
    x.mapError f = .error e ↔ ∃ e', x = .error e' ∧ f e' = e := by
  cases x <;> simp [Except.mapError]

theorem refusing_eq_refused {f : ε → δ} {x : Except ε α} {e : δ} :
    refusing f x = .error (.refused e) ↔ ∃ e', x = .error e' ∧ f e' = e := by
  simp [refusing, mapError_eq_error]

theorem inTermsOf_eq_refused {f : ε → δ} {x : Except (Failure ε) α} {e : δ} :
    inTermsOf f x = .error (.refused e) ↔ ∃ e', x = .error (.refused e') ∧ f e' = e := by
  unfold inTermsOf
  rw [mapError_eq_error]
  constructor
  · rintro ⟨e' | s, hx, hmap⟩
    · cases hmap
      exact ⟨e', hx, rfl⟩
    · cases hmap
  · rintro ⟨e', hx, rfl⟩
    exact ⟨.refused e', hx, rfl⟩

/-! ### Stopping -/

/-- The call succeeds or is refused, and never stops. -/
def NeverStops (x : Except (Failure ε) α) : Prop :=
  ∀ s, x ≠ .error (.stopped s)

theorem inTermsOf_eq_stopped {f : ε → δ} {x : Except (Failure ε) α} {s : Stop} :
    inTermsOf f x = .error (.stopped s) ↔ x = .error (.stopped s) := by
  unfold inTermsOf
  rw [mapError_eq_error]
  constructor
  · rintro ⟨e' | s', hx, hmap⟩
    · cases hmap
    · cases hmap
      exact hx
  · intro hx
    exact ⟨.stopped s, hx, rfl⟩

namespace NeverStops

theorem ok (a : α) : NeverStops (.ok a : Except (Failure ε) α) :=
  nofun

theorem refuse (cause : ε) : NeverStops (Clearing.refuse cause : Except (Failure ε) α) :=
  nofun

theorem refusing {f : ε → δ} {x : Except ε α} : NeverStops (Clearing.refusing f x) := by
  intro s h
  obtain ⟨_, -, hcause⟩ := mapError_eq_error.1 h
  cases hcause

theorem inTermsOf {f : ε → δ} {x : Except (Failure ε) α} (h : NeverStops x) :
    NeverStops (Clearing.inTermsOf f x) :=
  fun s hstopped => h s (inTermsOf_eq_stopped.1 hstopped)

theorem bind {x : Except (Failure ε) α} {f : α → Except (Failure ε) β} (hx : NeverStops x)
    (hf : ∀ a, x = .ok a → NeverStops (f a)) : NeverStops (x >>= f) := by
  intro s h
  rcases bind_eq_error.1 h with h | ⟨a, ha, h⟩
  · exact hx s h
  · exact hf a ha s h

end NeverStops

end Clearing

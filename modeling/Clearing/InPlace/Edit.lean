import Clearing.Failure

/-!
Changing a state where it is.

A call, as a function to the next state, cannot leave work half done: where it fails there is no
next state.  An edit can.  It works on one state, and what it wrote before it failed stays
written, unless it puts back what it changed.

An edit is put together from steps that read or fail but write nothing, and steps that write but
cannot fail.
-/

namespace Clearing

/-- Works on a state in place.  Where it fails, the state stays as it is at that moment. -/
abbrev Edit (σ ε : Type) := EStateM (Failure ε) σ

/-- A part of a state that can be worked on alone. -/
structure Part (σ τ : Type) where
  get : σ → τ
  set : σ → τ → σ
  get_set : ∀ s t, get (set s t) = t
  set_get : ∀ s, set s (get s) = s

namespace Edit

variable {σ τ ε δ α : Type}

/-- Reads the state. -/
def read (f : σ → α) : Edit σ ε α :=
  fun s => .ok (f s) s

/-- Reads the state, and can fail. -/
def check (f : σ → Except (Failure ε) α) : Edit σ ε α := fun s =>
  match f s with
  | .ok a => .ok a s
  | .error e => .error e s

/-- Can fail, whatever the state. -/
def attempt (x : Except (Failure ε) α) : Edit σ ε α :=
  check fun _ => x

/-- Writes the state. -/
def write (f : σ → σ) : Edit σ ε Unit :=
  fun s => .ok () (f s)

/-- Tells the cause of a failure in the terms of the caller. -/
def reworded (f : ε → δ) (x : Edit σ ε α) : Edit σ δ α := fun s =>
  match x s with
  | .ok a next => .ok a next
  | .error e left => .error (e.map f) left

/-- Works on a part of the state. -/
def within (p : Part σ τ) (x : Edit τ ε α) : Edit σ ε α := fun s =>
  match x (p.get s) with
  | .ok a t => .ok a (p.set s t)
  | .error e t => .error e (p.set s t)

/-- What the work comes to: its value or the cause of a refusal, and the state that is left. -/
def outcome (x : Edit σ ε α) (s : σ) : Except Stop (Except ε α × σ) :=
  match x s with
  | .ok a next => .ok (.ok a, next)
  | .error (.refused cause) left => .ok (.error cause, left)
  | .error (.stopped at_) _ => .error at_

/-- Puts something back where the work is refused, and refuses for the same cause. -/
def orRestore (x : Edit σ ε α) (restore : σ → σ) : Edit σ ε α := fun s =>
  match x s with
  | .error (.refused cause) left => .error (.refused cause) (restore left)
  | result => result

end Edit

end Clearing

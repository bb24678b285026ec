import Clearing.Deleverage.Candidate

/-!
The candidates on one side of a market, in the order in which they are deleveraged.

The highest score comes first, and of equal scores the one that arrived earlier.  A candidate
whose score changes keeps its time of arrival; one that leaves and comes back arrives anew.
-/

namespace Clearing

/-- A candidate with its place in the order of arrival. -/
structure Ranked where
  arrival : Nat
  candidate : Candidate
deriving DecidableEq

/-- Whether `a` is deleveraged before `b`. -/
def Ranked.before (a b : Ranked) : Prop :=
  b.candidate.score < a.candidate.score ∨
    ¬ a.candidate.score < b.candidate.score ∧ a.arrival < b.arrival

instance (a b : Ranked) : Decidable (a.before b) :=
  inferInstanceAs (Decidable (_ ∨ _))

/-- Candidates in the order of deleveraging, and the next time of arrival. -/
@[ext]
structure Ranking where
  order : List Ranked
  nextArrival : Nat
deriving DecidableEq

namespace Ranking

/-- No candidates yet. -/
def empty : Ranking := ⟨[], 0⟩

/-- The entry of a position. -/
def ranked? (r : Ranking) (id : PositionId) : Option Ranked :=
  r.order.find? (·.candidate.position = id)

/-- The candidates, first to be deleveraged first. -/
def candidates (r : Ranking) : List Candidate :=
  r.order.map (·.candidate)

/-- Puts an entry before the first one that it precedes. -/
def place (e : Ranked) : List Ranked → List Ranked
  | [] => [e]
  | x :: rest => if e.before x then e :: x :: rest else x :: place e rest

/-- Takes a position out. -/
def remove (r : Ranking) (id : PositionId) : Ranking :=
  { r with order := r.order.filter (·.candidate.position ≠ id) }

/-- Puts a candidate in, at the arrival it had or as the latest to arrive. -/
def upsert (r : Ranking) (c : Candidate) : Ranking :=
  match r.ranked? c.position with
  | some old => { r with order := place ⟨old.arrival, c⟩ (r.remove c.position).order }
  | none => ⟨place ⟨r.nextArrival, c⟩ r.order, r.nextArrival + 1⟩

/-- The place of a position in the order, counting from one. -/
def rank? (r : Ranking) (id : PositionId) : Option Nat :=
  (r.order.findIdx? (·.candidate.position = id)).map (· + 1)

end Ranking

end Clearing

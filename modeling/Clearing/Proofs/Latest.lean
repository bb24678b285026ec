import Mathlib.Data.List.DropRight

/-!
The latest entries of a list.

What is kept in the order of writing, and only up to a capacity, is at any time the end of all that
was ever written.
-/

namespace Clearing

variable {α : Type}

theorem rtake_eq_drop (xs : List α) (n : Nat) : xs.rtake n = xs.drop (xs.length - n) := rfl

theorem rtake_of_length_le {xs : List α} {n : Nat} (h : xs.length ≤ n) : xs.rtake n = xs := by
  rw [rtake_eq_drop, Nat.sub_eq_zero_of_le h, List.drop_zero]

@[simp] theorem length_rtake (xs : List α) (n : Nat) : (xs.rtake n).length = min n xs.length := by
  rw [rtake_eq_drop, List.length_drop]
  omega

/-- There are no more entries to ask for than there are. -/
theorem rtake_min (xs : List α) (n : Nat) : xs.rtake (min n xs.length) = xs.rtake n := by
  rw [rtake_eq_drop, rtake_eq_drop]
  congr 1
  omega

theorem map_rtake {β : Type} (f : α → β) (xs : List α) (n : Nat) :
    (xs.rtake n).map f = (xs.map f).rtake n := by
  rw [rtake_eq_drop, rtake_eq_drop, List.map_drop, List.length_map]

/-- What was dropped would be dropped now. -/
theorem rtake_rtake_append (xs ys : List α) (n : Nat) :
    (xs.rtake n ++ ys).rtake n = (xs ++ ys).rtake n := by
  have hjoin : xs.rtake n ++ ys = (xs ++ ys).drop (xs.length - n) :=
    (List.drop_append_of_le_length (Nat.sub_le _ _)).symm
  rw [hjoin, rtake_eq_drop, rtake_eq_drop, List.drop_drop, List.length_drop]
  congr 1
  rw [List.length_append]
  omega

/-- What is among the latest has its place near the end. -/
theorem mem_rtake_iff {xs : List α} {n : Nat} {x : α} :
    x ∈ xs.rtake n ↔ ∃ i, xs.length ≤ i + n ∧ xs[i]? = some x := by
  rw [rtake_eq_drop, List.mem_iff_getElem?]
  simp only [List.getElem?_drop]
  constructor
  · rintro ⟨i, hi⟩
    exact ⟨_, by omega, hi⟩
  · rintro ⟨i, hnear, hi⟩
    refine ⟨i - (xs.length - n), ?_⟩
    rw [Nat.add_sub_cancel' (by omega)]
    exact hi

end Clearing

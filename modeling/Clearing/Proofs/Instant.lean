import Clearing.Instant

/-!
How far instants are apart.

`gap` is the whole difference between two instants, which no range bounds.  What the arithmetic of
instants gives is cut to the range of a 64-bit number.  A wait worked out from it is never longer
than the time that is left, and where the range holds the difference it is just the whole seconds
of it.
-/

namespace Clearing

namespace Instant

/-- The milliseconds from `a` to `b`, however far apart they are. -/
def gap (a b : Instant) : Int :=
  b.millis.toInt - a.millis.toInt

/-- The milliseconds from `a` to `b` are in the range of a 64-bit number. -/
def Fits (a b : Instant) : Prop :=
  Int64.minValue.toInt ≤ a.gap b ∧ a.gap b ≤ Int64.maxValue.toInt

instance (a b : Instant) : Decidable (a.Fits b) :=
  inferInstanceAs (Decidable (_ ∧ _))

variable {a b c : Instant}

/-! ### Order -/

theorem gap_self (a : Instant) : a.gap a = 0 :=
  Int.sub_self _

theorem gap_add (a b c : Instant) : a.gap b + b.gap c = a.gap c := by
  unfold gap
  omega

theorem lt_iff : a < b ↔ 0 < a.gap b := by
  show a.millis < b.millis ↔ _
  rw [Int64.lt_iff_toInt_lt, gap]
  omega

theorem not_lt_iff : ¬ b < a ↔ 0 ≤ a.gap b := by
  show ¬ b.millis < a.millis ↔ _
  rw [Int64.lt_iff_toInt_lt, gap]
  omega

/-- There is an instant at each millisecond between two instants. -/
theorem exists_gap_eq {n : Int} (hn : 0 ≤ n) (hlast : n ≤ a.gap b) : ∃ c, a.gap c = n := by
  have hlow := a.millis.le_toInt
  have hhigh := b.millis.toInt_lt
  unfold gap at hlast
  refine ⟨⟨Int64.ofInt (a.millis.toInt + n)⟩, ?_⟩
  unfold gap
  rw [Int64.toInt_ofInt_of_le (by omega) (by omega)]
  omega

/-! ### Cut to a range -/

theorem saturate_eq {n : Int} (hlow : Int64.minValue.toInt ≤ n) (hhigh : n ≤ Int64.maxValue.toInt) :
    (saturate n).toInt = n := by
  rw [Int64.toInt_minValue] at hlow
  rw [Int64.toInt_maxValue] at hhigh
  unfold saturate
  rw [if_neg (by omega), if_neg (by omega), Int64.toInt_ofInt_of_le (by omega) (by omega)]

theorem saturate_le {n : Int} (h : 0 ≤ n) : (saturate n).toInt ≤ n := by
  unfold saturate
  rw [if_neg (by omega)]
  split
  · rename_i hlarge
    rw [show Int64.maxValue.toInt = 9223372036854775807 from rfl]
    omega
  · exact Int.le_of_eq (Int64.toInt_ofInt_of_le (by omega) (by omega))

/-- A difference that is below a bound stays below it when it is cut to its range. -/
theorem saturate_lt {n : Int} {bound : Int64} (hbound : 0 ≤ bound.toInt)
    (hn : n < bound.toInt) : (saturate n).toInt < bound.toInt := by
  have hmax := bound.toInt_lt
  unfold saturate
  by_cases hlow : n < -9223372036854775808
  · rw [if_pos hlow, Int64.toInt_minValue]
    omega
  · rw [if_neg hlow, if_neg (by omega), Int64.toInt_ofInt_of_le (by omega) (by omega)]
    exact hn

/-! ### Whole seconds -/

theorem toNat_secondsUntil (a b : Instant) :
    (a.secondsUntil b).toNat = (a.millisUntil b).toInt.toNat / 1000 := by
  have hlt := (a.millisUntil b).toInt_lt
  refine UInt64.toNat_ofNat_of_lt' ?_
  rw [UInt64.size]
  omega

/-- A difference that saturates is shorter than the time that passed. -/
theorem secondsUntil_le (h : 0 ≤ a.gap b) :
    ((a.secondsUntil b).toNat : Int) * 1000 ≤ a.gap b := by
  have hspan : (a.millisUntil b).toInt ≤ a.gap b := saturate_le h
  rw [toNat_secondsUntil]
  omega

/-- A difference that is in range is counted in full. -/
theorem Fits.toNat_secondsUntil (h : a.Fits b) :
    (a.secondsUntil b).toNat = (a.gap b).toNat / 1000 := by
  have hspan : (a.millisUntil b).toInt = a.gap b := saturate_eq h.1 h.2
  rw [Instant.toNat_secondsUntil, hspan]

/-- Whole seconds that pass later add to the whole seconds that passed before. -/
theorem Fits.add_le_secondsUntil (h : a.Fits c) (hbefore : 0 ≤ a.gap b) {seconds : Nat}
    (hlater : (seconds : Int) * 1000 ≤ b.gap c) :
    (a.secondsUntil b).toNat + seconds ≤ (a.secondsUntil c).toNat := by
  have hpassed := secondsUntil_le hbefore
  have hgap := a.gap_add b c
  rw [h.toNat_secondsUntil]
  omega

end Instant

end Clearing

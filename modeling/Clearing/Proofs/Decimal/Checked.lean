import Clearing.Decimal.Checked
import Clearing.Proofs.Decimal.Rounding
import Clearing.Proofs.Failure

/-!
Checked arithmetic in counts of units, and what its errors name.

A checked sum or difference that succeeds is the rounded one of the counts.  One that fails names
the quantity it was asked for: `FailsAt` says that of a whole computation, and follows it from
its steps.
-/

namespace Clearing

/-- The quantity that could not be computed. -/
def ArithmeticError.quantity : ArithmeticError → String
  | overflow quantity => quantity
  | divisionByZero quantity => quantity

/-- The computation fails at none but these quantities. -/
def FailsAt {α : Type} (quantities : List String) (x : Except ArithmeticError α) : Prop :=
  ∀ e, x = .error e → e.quantity ∈ quantities

namespace FailsAt

variable {α β : Type} {qs : List String}

theorem bind {x : Except ArithmeticError α} {f : α → Except ArithmeticError β}
    (hx : FailsAt qs x) (hf : ∀ a, FailsAt qs (f a)) : FailsAt qs (x >>= f) := by
  intro e he
  rcases bind_eq_error.1 he with he | ⟨a, -, he⟩
  · exact hx e he
  · exact hf a e he

theorem pure (a : α) : FailsAt qs (Pure.pure a) :=
  nofun

theorem ok (a : α) : FailsAt qs (.ok a) :=
  nofun

theorem ite {c : Prop} [Decidable c] {x y : Except ArithmeticError α} (hx : FailsAt qs x)
    (hy : FailsAt qs y) : FailsAt qs (if c then x else y) := by
  split
  · exact hx
  · exact hy

theorem foldlM {f : β → α → Except ArithmeticError β} (hf : ∀ b a, FailsAt qs (f b a)) :
    ∀ (l : List α) (b : β), FailsAt qs (l.foldlM f b)
  | [], b => pure b
  | a :: l, b => by
    rw [List.foldlM_cons]
    exact bind (hf b a) fun b' => foldlM hf l b'

end FailsAt

namespace Decimal

variable {a b c : Decimal} {q : String}

theorem orOverflow_eq_ok {x : Option Decimal} : orOverflow q x = .ok c ↔ x = some c := by
  cases x <;> simp [orOverflow]

theorem zero_lt_iff : zero < a ↔ 0 < a.units := by
  rw [lt_iff_units, units_zero]

/-! ### Success -/

theorem units_of_add (h : a.add b q = .ok c) : rounded? (a.units + b.units) = some c.units := by
  rw [← add?_units, orOverflow_eq_ok.1 h, Option.map_some]

theorem units_of_sub (h : a.sub b q = .ok c) : rounded? (a.units - b.units) = some c.units := by
  rw [← sub?_units, orOverflow_eq_ok.1 h, Option.map_some]

theorem quotient?_of_div (h : a.div b q = .ok c) : a.quotient? b = some c := by
  unfold div at h
  split at h
  · cases h
  · exact orOverflow_eq_ok.1 h

/-- An unchecked sum is formed or stops; there is no cause to refuse it for. -/
theorem addOrStop_ends {ε : Type} (a b : Decimal) :
    (∃ c, (a.addOrStop b : Except (Failure ε) Decimal) = .ok c) ∨
      ∃ at_, (a.addOrStop b : Except (Failure ε) Decimal) = .error (.stopped at_) := by
  unfold addOrStop
  cases a.add? b with
  | some c => exact .inl ⟨c, rfl⟩
  | none => exact .inr ⟨_, rfl⟩

theorem subOrStop_ends {ε : Type} (a b : Decimal) :
    (∃ c, (a.subOrStop b : Except (Failure ε) Decimal) = .ok c) ∨
      ∃ at_, (a.subOrStop b : Except (Failure ε) Decimal) = .error (.stopped at_) := by
  unfold subOrStop
  cases a.sub? b with
  | some c => exact .inl ⟨c, rfl⟩
  | none => exact .inr ⟨_, rfl⟩

theorem addOrStop_ne_refused {ε : Type} {e : ε} :
    (a.addOrStop b : Except (Failure ε) Decimal) ≠ .error (.refused e) := by
  intro h
  rcases addOrStop_ends a b with ⟨c, hends⟩ | ⟨at_, hends⟩ <;> cases hends.symm.trans h

theorem subOrStop_ne_refused {ε : Type} {e : ε} :
    (a.subOrStop b : Except (Failure ε) Decimal) ≠ .error (.refused e) := by
  intro h
  rcases subOrStop_ends a b with ⟨c, hends⟩ | ⟨at_, hends⟩ <;> cases hends.symm.trans h

theorem units_of_addOrStop {ε : Type} (h : (a.addOrStop b : Except (Failure ε) Decimal) = .ok c) :
    rounded? (a.units + b.units) = some c.units := by
  unfold addOrStop at h
  split at h
  · rename_i d hd
    cases h
    rw [← add?_units, hd, Option.map_some]
  · cases h

theorem units_of_subOrStop {ε : Type} (h : (a.subOrStop b : Except (Failure ε) Decimal) = .ok c) :
    rounded? (a.units - b.units) = some c.units := by
  unfold subOrStop at h
  split at h
  · rename_i d hd
    cases h
    rw [← sub?_units, hd, Option.map_some]
  · cases h

/-- An unchecked sum stops where it is rounded to nothing. -/
theorem addOrStop_eq_stopped {ε : Type} {s : Stop} :
    (a.addOrStop b : Except (Failure ε) Decimal) = .error (.stopped s) ↔
      s = .addition ∧ rounded? (a.units + b.units) = none := by
  unfold addOrStop
  rw [← add?_units]
  cases a.add? b with
  | some c => simp
  | none => simp [eq_comm]

/-- What a decimal exceeds another one by is in range, where neither is below zero. -/
theorem exists_rounded?_sub (ha : 0 ≤ a.units) (hb : 0 ≤ b.units) :
    ∃ r, rounded? (a.units - b.units) = some r := by
  have hexact : ∀ d : Decimal, roundedRatio? d.units 1 = some d.units := fun d =>
    rounded?_eq_roundedRatio? d.units ▸ rounded?_units d
  rw [rounded?_eq_roundedRatio?]
  rcases Int.le_total b.units a.units with hle | hle
  · exact roundedRatio?_of_natAbs_le Nat.one_pos Nat.one_pos (by omega) (hexact a)
  · exact roundedRatio?_of_natAbs_le Nat.one_pos Nat.one_pos (by omega) (hexact b)

/-- So an unchecked difference of two such decimals does not stop. -/
theorem neverStops_subOrStop {ε : Type} (ha : 0 ≤ a.units) (hb : 0 ≤ b.units) :
    NeverStops (a.subOrStop b : Except (Failure ε) Decimal) := by
  obtain ⟨r, hr⟩ := exists_rounded?_sub ha hb
  rw [← sub?_units] at hr
  obtain ⟨d, hd, -⟩ := Option.map_eq_some_iff.1 hr
  unfold subOrStop
  rw [hd]
  exact .ok d

/-- What is left after taking less than there is is above zero. -/
theorem sub_pos (h : a.sub b q = .ok c) (hlt : b < a) : zero < c := by
  have hround := units_of_sub h
  have hdiff : 0 < a.units - b.units := by
    rw [lt_iff_units] at hlt
    omega
  have hnonneg := rounded?_nonneg hround (by omega)
  have hne := rounded?_ne_zero hround (by omega)
  rw [zero_lt_iff]
  omega

theorem add_pos (h : a.add b q = .ok c) (ha : zero < a) (hb : zero < b) : zero < c := by
  have hround := units_of_add h
  rw [zero_lt_iff] at *
  have hnonneg := rounded?_nonneg hround (by omega)
  have hne := rounded?_ne_zero hround (by omega)
  omega

/-- A zero adds nothing to what is not one. -/
theorem add_zero_of_pos (ha : zero < a) : a.add zero q = .ok a := by
  have hne : ¬ a.isZero = true := by
    intro h
    rw [zero_lt_iff, units_eq_zero_iff.2 h] at ha
    exact Int.lt_irrefl _ ha
  have hsum : a.add? zero = some a := by
    unfold add?
    rw [if_neg hne, if_pos (show zero.isZero = true from rfl)]
  exact orOverflow_eq_ok.2 hsum

/-! ### Signs -/

theorem neg_neg (a : Decimal) : -(-a) = a := by
  show neg (neg a) = a
  unfold neg
  rw [Bool.not_not]

theorem neg_lt_zero : -a < zero ↔ zero < a := by
  rw [zero_lt_iff, lt_iff_units, units_neg, units_zero]
  omega

theorem units_nonneg (h : a.negative = false) : 0 ≤ a.units := by
  have hneg := units_neg_iff (d := a)
  rw [h] at hneg
  simp only [Bool.false_eq_true, false_and, iff_false] at hneg
  omega

theorem not_negative_of_pos (h : zero < a) : a.negative = false := by
  rw [zero_lt_iff, units_eq] at h
  cases hneg : a.negative with
  | false => rfl
  | true =>
    rw [hneg] at h
    simp only [signed, if_true] at h
    omega

theorem negative_of_fit {negative : Bool} {coeff scale : Nat}
    (h : fit negative coeff scale = some c) : c.negative = negative := by
  unfold fit at h
  split at h
  · cases h
  · dsimp only at h
    split at h
    · exact (ofParts?_eq_some_iff.1 h).1
    · split at h
      · cases h
      · exact (ofParts?_eq_some_iff.1 h).1

/-- A product of numbers without a minus sign has none. -/
theorem not_negative_of_mul (h : a.mul b q = .ok c) (ha : a.negative = false)
    (hb : b.negative = false) : c.negative = false := by
  have hproduct := orOverflow_eq_ok.1 h
  unfold mul? at hproduct
  rw [ha, hb] at hproduct
  dsimp only at hproduct
  split at hproduct
  · cases hproduct
    rfl
  · split at hproduct
    · cases hproduct
      rfl
    · obtain ⟨d, hfit, rfl⟩ := Option.map_eq_some_iff.1 hproduct
      split
      · rfl
      · rw [negative_of_fit hfit]
        rfl

/-- A quotient of numbers without a minus sign has none. -/
theorem not_negative_of_div (h : a.div b q = .ok c) (ha : a.negative = false)
    (hb : b.negative = false) : c.negative = false := by
  unfold div at h
  split at h
  · cases h
  · have hquotient := orOverflow_eq_ok.1 h
    unfold quotient? at hquotient
    split at hquotient
    · cases hquotient
      rfl
    · rw [ha, hb] at hquotient
      simp only [Option.bind_eq_bind, Option.bind_eq_some_iff] at hquotient
      obtain ⟨digits, -, hparts⟩ := hquotient
      rw [(ofParts?_eq_some_iff.1 hparts).1]
      rfl

/-! ### Failure -/

theorem failsAt_orOverflow (q : String) (x : Option Decimal) : FailsAt [q] (orOverflow q x) := by
  intro e he
  cases x with
  | none =>
    cases he
    exact List.mem_singleton_self q
  | some d => cases he

variable {qs : List String}

theorem failsAt_add (hq : q ∈ qs) : FailsAt qs (a.add b q) := by
  intro e he
  have := failsAt_orOverflow q _ e he
  rwa [List.mem_singleton.1 this]

theorem failsAt_sub (hq : q ∈ qs) : FailsAt qs (a.sub b q) := by
  intro e he
  have := failsAt_orOverflow q _ e he
  rwa [List.mem_singleton.1 this]

theorem failsAt_mul (hq : q ∈ qs) : FailsAt qs (a.mul b q) := by
  intro e he
  have := failsAt_orOverflow q _ e he
  rwa [List.mem_singleton.1 this]

theorem failsAt_div (hq : q ∈ qs) : FailsAt qs (a.div b q) := by
  unfold div
  split
  · intro e he
    cases he
    exact hq
  · intro e he
    have := failsAt_orOverflow q _ e he
    rwa [List.mem_singleton.1 this]

end Decimal

end Clearing

import Clearing.Proofs.Funding.Plan
import Mathlib.Algebra.BigOperators.Ring.List
import Mathlib.Algebra.Order.BigOperators.Group.List

/-!
What is taken from sizes in turn, as numbers.

A walk keeps two accounts.  What is missing goes down and what was closed goes up, by the same
amounts, and each is rounded on its own.  In exact numbers the amounts would add up to what was
missing, or to all the sizes if these are less, and both accounts would say so.

`amounts_sum` says what they add up to with the roundings, and `Balances` where these change
nothing.  Sizes and a shortfall with so many decimals in common that the shortfall still fits do
balance (`balances_of_scale`).
-/

namespace Clearing

open Decimal

namespace DeleverageQueue

/-- The count a count is rounded to, or the count itself where no decimal is near. -/
def nearest (n : Int) : Int :=
  (rounded? n).getD n

/-- What is taken from sizes in turn while something is missing. -/
def amounts : Int → List Int → List Int
  | _, [] => []
  | missing, size :: rest =>
    if missing ≤ 0 then []
    else min missing size :: amounts (nearest (missing - min missing size)) rest

/-- What the roundings of the missing amount add to it on the way. -/
def missingSlip : Int → List Int → Int
  | _, [] => 0
  | missing, size :: rest =>
    if missing ≤ 0 then 0
    else
      let left := missing - min missing size
      nearest left - left + missingSlip (nearest left) rest

theorem nearest_of_rounded? {n r : Int} (h : rounded? n = some r) : nearest n = r := by
  unfold nearest
  rw [h, Option.getD_some]

theorem nearest_nonneg {n : Int} (hn : 0 ≤ n) : 0 ≤ nearest n := by
  unfold nearest
  cases h : rounded? n with
  | none => exact hn
  | some r => exact rounded?_nonneg h hn

theorem nearest_zero : nearest 0 = 0 :=
  nearest_of_rounded? (rounded?_units zero)

theorem amounts_of_nonpos {missing : Int} (h : missing ≤ 0) (sizes : List Int) :
    amounts missing sizes = [] := by
  cases sizes with
  | nil => rfl
  | cons size rest => rw [amounts, if_pos h]

theorem amounts_cons {missing : Int} (h : 0 < missing) (size : Int) (rest : List Int) :
    amounts missing (size :: rest)
      = min missing size :: amounts (nearest (missing - min missing size)) rest := by
  rw [amounts, if_neg (Int.not_le.2 h)]

theorem missingSlip_of_nonpos {missing : Int} (h : missing ≤ 0) (sizes : List Int) :
    missingSlip missing sizes = 0 := by
  cases sizes with
  | nil => rfl
  | cons size rest => rw [missingSlip, if_pos h]

/-- Up to the slip, what is taken is what is missing, or all of the sizes if these are less. -/
theorem amounts_sum {missing : Int} (hmissing : 0 ≤ missing) {sizes : List Int}
    (hsizes : ∀ s ∈ sizes, 0 ≤ s) :
    (amounts missing sizes).sum = min (missing + missingSlip missing sizes) sizes.sum := by
  induction sizes generalizing missing with
  | nil =>
    simp only [amounts, missingSlip, List.sum_nil]
    omega
  | cons size rest ih =>
    have hsize := hsizes size (List.mem_cons_self ..)
    have hrests : ∀ s ∈ rest, 0 ≤ s := fun s hs => hsizes s (List.mem_cons_of_mem _ hs)
    have hrest : 0 ≤ rest.sum := List.sum_nonneg hrests
    by_cases hzero : missing ≤ 0
    · rw [amounts_of_nonpos hzero, missingSlip_of_nonpos hzero, List.sum_nil, List.sum_cons]
      omega
    · rw [amounts, if_neg hzero, missingSlip, if_neg hzero]
      by_cases hle : size ≤ missing
      · have hmin : min missing size = size := by omega
        rw [hmin]
        dsimp only
        rw [List.sum_cons, List.sum_cons, ih (nearest_nonneg (by omega)) hrests]
        omega
      · -- The size covers all that is missing, and nothing is left to round.
        have hmin : min missing size = missing := by omega
        rw [hmin]
        dsimp only
        rw [Int.sub_self, nearest_zero, amounts_of_nonpos (Int.le_refl 0),
          missingSlip_of_nonpos (Int.le_refl 0)]
        simp only [List.sum_cons, List.sum_nil]
        omega

/-- The running total of what is taken is exact, and the roundings of what is missing change
nothing, because they cancel or because the sizes run out either way. -/
def Balances (missing : Int) (sizes : List Int) : Prop :=
  runningTotal 0 (amounts missing sizes) = some (amounts missing sizes).sum ∧
    (missingSlip missing sizes = 0 ∨
      sizes.sum ≤ missing ∧ sizes.sum ≤ missing + missingSlip missing sizes)

instance (missing : Int) (sizes : List Int) : Decidable (Balances missing sizes) :=
  inferInstanceAs (Decidable (_ ∧ _))

/-! ### Sizes with few decimals -/

/-- Counts of `10^-scale` that fit into a decimal of this scale. -/
theorem representable_of_dvd {scale : Nat} (hscale : scale ≤ maxScale) {n bound : Int}
    (hdvd : (tenPow (maxScale - scale) : Int) ∣ n) (hn : 0 ≤ n) (hle : n ≤ bound)
    (hbound : bound < coeffBound * tenPow (maxScale - scale)) : Representable n := by
  obtain ⟨q, rfl⟩ := hdvd
  have hten : (0 : Int) < tenPow (maxScale - scale) := by exact_mod_cast tenPow_pos _
  have hq : 0 ≤ q := Int.nonneg_of_mul_nonneg_right hn hten
  have hlt : q < coeffBound := by
    rw [Int.mul_comm (coeffBound : Int)] at hbound
    exact Int.lt_of_mul_lt_mul_left (Int.lt_of_le_of_lt hle hbound) (Int.le_of_lt hten)
  refine ⟨⟨false, q.toNat, scale, (Int.toNat_lt hq).2 hlt, hscale⟩, ?_⟩
  rw [units_eq]
  simp only [signed, Bool.false_eq_true, if_false]
  push_cast
  rw [Int.toNat_of_nonneg hq, Int.mul_comm]

/-- Within one scale nothing is rounded on the way, and what is taken stays within it. -/
theorem amounts_of_dvd {scale : Nat} (hscale : scale ≤ maxScale) {bound : Int}
    (hbound : bound < coeffBound * tenPow (maxScale - scale)) {missing : Int}
    (hdvd : (tenPow (maxScale - scale) : Int) ∣ missing) (hmissing : 0 ≤ missing)
    (hle : missing ≤ bound) {sizes : List Int}
    (hsizes : ∀ s ∈ sizes, 0 ≤ s ∧ (tenPow (maxScale - scale) : Int) ∣ s) :
    missingSlip missing sizes = 0 ∧
      ∀ n ∈ amounts missing sizes, 0 ≤ n ∧ (tenPow (maxScale - scale) : Int) ∣ n := by
  induction sizes generalizing missing with
  | nil => exact ⟨rfl, nofun⟩
  | cons size rest ih =>
    obtain ⟨hsize, hsizedvd⟩ := hsizes size (List.mem_cons_self ..)
    have hrests := fun s hs => hsizes s (List.mem_cons_of_mem _ hs)
    by_cases hzero : missing ≤ 0
    · rw [amounts_of_nonpos hzero, missingSlip_of_nonpos hzero]
      exact ⟨rfl, nofun⟩
    · have hmin : (tenPow (maxScale - scale) : Int) ∣ min missing size := by
        rcases Int.le_total missing size with h | h
        · rwa [Int.min_eq_left h]
        · rwa [Int.min_eq_right h]
      have hleft := Int.dvd_sub hdvd hmin
      have hexact : nearest (missing - min missing size) = missing - min missing size :=
        nearest_of_rounded? (rounded?_of_representable
          (representable_of_dvd hscale hleft (by omega) (by omega) hbound))
      obtain ⟨hslip, hamounts⟩ := ih hleft (by omega) (by omega) hrests
      rw [amounts, if_neg hzero, missingSlip, if_neg hzero]
      dsimp only
      rw [hexact, hslip]
      refine ⟨by omega, fun n hn => ?_⟩
      rcases List.mem_cons.1 hn with rfl | hn
      · exact ⟨by omega, hmin⟩
      · exact hamounts n hn

/-- Where one scale serves for the sizes and for a shortfall that fits in it, both accounts are
exact. -/
theorem balances_of_scale {scale : Nat} (hscale : scale ≤ maxScale) {missing : Decimal}
    (hmissing : missing.scale ≤ scale) (hnonneg : 0 ≤ missing.units)
    (hfits : missing.units < coeffBound * tenPow (maxScale - scale)) {sizes : List Decimal}
    (hsizes : ∀ s ∈ sizes, 0 ≤ s.units ∧ s.scale ≤ scale) :
    Balances missing.units (sizes.map units) := by
  have hdvd : ∀ d : Decimal, d.scale ≤ scale → (tenPow (maxScale - scale) : Int) ∣ d.units :=
    fun d hd => ⟨d.scaledTo scale, by rw [Int.mul_comm, scaledTo_mul_tenPow hd hscale]⟩
  have hcounts : ∀ s ∈ sizes.map units, 0 ≤ s ∧ (tenPow (maxScale - scale) : Int) ∣ s := by
    intro s hs
    obtain ⟨d, hd, rfl⟩ := List.mem_map.1 hs
    exact ⟨(hsizes d hd).1, hdvd d (hsizes d hd).2⟩
  obtain ⟨hslip, hamounts⟩ :=
    amounts_of_dvd hscale hfits (hdvd missing hmissing) hnonneg (Int.le_refl _) hcounts
  have hsum := amounts_sum hnonneg fun s hs => (hcounts s hs).1
  refine ⟨?_, .inl hslip⟩
  rw [runningTotal_of_representable, Int.zero_add]
  intro k
  rw [Int.zero_add]
  -- A part of what is taken is no more than all of it, and that is no more than was missing.
  have hsplit := congrArg List.sum
    (List.take_append_drop k (amounts missing.units (sizes.map units)))
  rw [List.sum_append] at hsplit
  have htake : 0 ≤ ((amounts missing.units (sizes.map units)).take k).sum :=
    List.sum_nonneg fun n hn => (hamounts n (List.mem_of_mem_take hn)).1
  have hdrop : 0 ≤ ((amounts missing.units (sizes.map units)).drop k).sum :=
    List.sum_nonneg fun n hn => (hamounts n (List.mem_of_mem_drop hn)).1
  have hpart : (tenPow (maxScale - scale) : Int)
      ∣ ((amounts missing.units (sizes.map units)).take k).sum :=
    List.dvd_sum fun n hn => (hamounts n (List.mem_of_mem_take hn)).2
  exact representable_of_dvd hscale hpart htake (by omega) hfits

end DeleverageQueue

end Clearing

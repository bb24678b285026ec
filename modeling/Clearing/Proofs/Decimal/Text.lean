import Clearing.Decimal.Exponent
import Clearing.Proofs.Json.Spelling

/-!
Reading a decimal that was written.

The digits of a written decimal are those of its coefficient, with a point in front of the last
`scale` of them.  Reading them one by one never leaves the bounds, because what has been read so far
is at most the coefficient, and of the scale no more than is there.  So coefficient and scale come
back, and the sign too, except that of a zero.
-/

namespace Clearing

namespace Decimal

/-- The same number with the same decimals, without the sign of a zero. -/
def dropZeroSign (d : Decimal) : Decimal :=
  { d with negative := d.negative && d.coeff != 0 }

@[simp] theorem dropZeroSign_scale (d : Decimal) : d.dropZeroSign.scale = d.scale := rfl

theorem dropZeroSign_of_ne_zero {d : Decimal} (h : d.coeff ≠ 0) : d.dropZeroSign = d := by
  ext
  · simp [dropZeroSign, h]
  · rfl
  · rfl

@[simp] theorem signedCoeff_dropZeroSign (d : Decimal) :
    d.dropZeroSign.signedCoeff = d.signedCoeff := by
  by_cases h : d.coeff = 0
  · simp [signedCoeff, dropZeroSign, h]
  · rw [dropZeroSign_of_ne_zero h]

/-- The sign of a zero shows in no comparison. -/
theorem cmp_dropZeroSign (d : Decimal) : d.dropZeroSign.cmp d = .eq := by
  have hlt : ¬ d.dropZeroSign < d := by
    show ¬ d.dropZeroSign.signedCoeff * _ < d.signedCoeff * _
    simp
  have hgt : ¬ d < d.dropZeroSign := by
    show ¬ d.signedCoeff * _ < d.dropZeroSign.signedCoeff * _
    simp
  unfold cmp
  rw [if_neg hlt, if_neg hgt]

/-! ### Digits -/

theorem digitValue?_of_isDigit {c : Char} (h : c.isDigit = true) :
    digitValue? c = some (c.toNat - '0'.toNat) := by
  have hrange : '0' ≤ c ∧ c ≤ '9' := by
    simpa [Char.isDigit, Char.le_def] using h
  exact if_pos hrange

/-- Digits never make a number smaller that they are put behind. -/
theorem le_ofDigitChars (n : Nat) (digits : List Char) : n ≤ Nat.ofDigitChars 10 digits n := by
  induction digits generalizing n with
  | nil => exact Nat.le_refl n
  | cons c rest ih =>
    rw [Nat.ofDigitChars_cons]
    exact Nat.le_trans (by omega) (ih _)

/-- Digits before the point go into the coefficient. -/
theorem finish_whole {digits : List Char} {n : Nat} {seen : Bool}
    (hdigits : ∀ c ∈ digits, c.isDigit = true)
    (hlt : Nat.ofDigitChars 10 digits n < coeffBound) (rest : List Char) :
    Reading.finish ⟨n, 0, false, seen⟩ (digits ++ rest) =
      Reading.finish ⟨Nat.ofDigitChars 10 digits n, 0, false, seen || !digits.isEmpty⟩ rest := by
  induction digits generalizing n seen with
  | nil => simp [Nat.ofDigitChars]
  | cons c digits ih =>
    rw [Nat.ofDigitChars_cons] at hlt ⊢
    have hnext : n * 10 + (c.toNat - '0'.toNat) < coeffBound :=
      Nat.lt_of_le_of_lt (by rw [Nat.mul_comm]; exact le_ofDigitChars _ digits) hlt
    rw [List.cons_append, Reading.finish, if_neg (by simp),
      digitValue?_of_isDigit (hdigits c (List.mem_cons_self ..))]
    dsimp only
    rw [if_pos hnext, if_neg Bool.false_ne_true, Nat.mul_comm n 10,
      ih (fun c' hc' => hdigits c' (List.mem_cons_of_mem _ hc')) hlt]
    simp

/-- Digits behind the point go into the coefficient and count as decimals. -/
theorem finish_decimals {digits : List Char} {n scale : Nat}
    (hdigits : ∀ c ∈ digits, c.isDigit = true)
    (hlt : Nat.ofDigitChars 10 digits n < coeffBound) (hscale : scale + digits.length ≤ maxScale) :
    Reading.finish ⟨n, scale, true, true⟩ digits =
      some (Nat.ofDigitChars 10 digits n, scale + digits.length) := by
  induction digits generalizing n scale with
  | nil => simp [Nat.ofDigitChars, Reading.finish]
  | cons c digits ih =>
    rw [Nat.ofDigitChars_cons] at hlt ⊢
    rw [List.length_cons] at hscale ⊢
    have hnext : n * 10 + (c.toNat - '0'.toNat) < coeffBound :=
      Nat.lt_of_le_of_lt (by rw [Nat.mul_comm]; exact le_ofDigitChars _ digits) hlt
    rw [Reading.finish, if_neg (by dsimp only; omega),
      digitValue?_of_isDigit (hdigits c (List.mem_cons_self ..))]
    dsimp only
    rw [if_pos hnext, if_pos rfl, Nat.mul_comm n 10,
      ih (fun c' hc' => hdigits c' (List.mem_cons_of_mem _ hc')) hlt (by omega)]
    congr 2
    omega

/-! ### The digits of a coefficient -/

theorem isDigit_of_mem_paddedDigits {width n : Nat} {c : Char} (h : c ∈ paddedDigits width n) :
    c.isDigit = true := by
  unfold paddedDigits at h
  rcases List.mem_append.1 h with hzero | hdigit
  · rw [List.eq_of_mem_replicate hzero]
    decide
  · exact Json.mem_toDigits_isDigit hdigit

theorem le_length_paddedDigits (width n : Nat) : width ≤ (paddedDigits width n).length := by
  unfold paddedDigits
  rw [List.length_append, List.length_replicate]
  omega

theorem ofDigitChars_paddedDigits (width n : Nat) :
    Nat.ofDigitChars 10 (paddedDigits width n) 0 = n := by
  unfold paddedDigits
  rw [Nat.ofDigitChars_append, Nat.ofDigitChars_replicate_zero, Nat.mul_zero,
    Nat.ofDigitChars_ten_toDigits]

/-- What stands before the point, which is not nothing, and what stands behind it. -/
theorem exists_pointed_eq (coeff scale : Nat) :
    ∃ whole decimals, pointed coeff scale = whole ++ (if scale = 0 then [] else '.' :: decimals) ∧
      whole ≠ [] ∧ decimals.length = scale ∧ (∀ c ∈ whole ++ decimals, c.isDigit = true) ∧
      Nat.ofDigitChars 10 (whole ++ decimals) 0 = coeff := by
  have hlen := le_length_paddedDigits (scale + 1) coeff
  refine ⟨_, _, rfl, ?_, ?_, ?_, ?_⟩
  · rw [← List.length_pos_iff, List.length_take]
    omega
  · rw [List.length_drop]
    omega
  · rw [List.take_append_drop]
    exact fun _ => isDigit_of_mem_paddedDigits
  · rw [List.take_append_drop, ofDigitChars_paddedDigits]

/-- What was written of coefficient and scale is read as such. -/
theorem unsignedParts?_pointed {coeff scale : Nat} (hcoeff : coeff < coeffBound)
    (hscale : scale ≤ maxScale) :
    unsignedParts? (pointed coeff scale) = some (coeff, scale) := by
  obtain ⟨whole, decimals, heq, hne, hlen, hdigits, hvalue⟩ := exists_pointed_eq coeff scale
  rw [Nat.ofDigitChars_append] at hvalue
  have hwhole : Nat.ofDigitChars 10 whole 0 < coeffBound :=
    Nat.lt_of_le_of_lt (le_ofDigitChars _ decimals) (hvalue ▸ hcoeff)
  unfold unsignedParts?
  rw [heq, finish_whole (fun c hc => hdigits c (List.mem_append_left _ hc)) hwhole,
    List.isEmpty_eq_false_iff.2 hne, Bool.false_or, Bool.not_false]
  by_cases h : scale = 0
  · have hnil : decimals = [] := List.length_eq_zero_iff.1 (hlen.trans h)
    rw [hnil] at hvalue
    rw [if_pos h, Reading.finish, if_pos rfl, h]
    exact congrArg (fun n => some (n, 0)) hvalue
  · rw [if_neg h, Reading.finish, if_neg (by simp), show digitValue? '.' = none from rfl]
    dsimp only
    rw [if_pos ⟨rfl, rfl⟩,
      finish_decimals (fun c hc => hdigits c (List.mem_append_right _ hc))
        (hvalue.symm ▸ hcoeff) (by omega), hvalue, hlen, Nat.zero_add]

/-- In front of a number stands its sign or a digit. -/
theorem pointed_ne_sign_cons {coeff scale : Nat} {c : Char} (hc : c.isDigit = false)
    (rest : List Char) : pointed coeff scale ≠ c :: rest := by
  obtain ⟨whole, decimals, heq, hne, -, hdigits, -⟩ := exists_pointed_eq coeff scale
  obtain ⟨c', whole, rfl⟩ := List.exists_cons_of_ne_nil hne
  rw [heq, List.cons_append]
  intro h
  rw [← (List.cons.inj h).1, hdigits c' (List.mem_cons_self ..)] at hc
  exact Bool.noConfusion hc

/-- **A decimal is read as it was written, but a zero without its sign.** -/
theorem ofText?_text (d : Decimal) : ofText? d.text = some d.dropZeroSign := by
  have hparts := unsignedParts?_pointed d.coeff_lt d.scale_le
  have hread : ofParts? (d.negative && d.coeff != 0) d.coeff d.scale = some d.dropZeroSign :=
    ofParts?_of_le d.coeff_lt d.scale_le
  unfold ofText? text chars ofChars?
  rw [String.toList_ofList]
  cases hneg : d.negative with
  | true =>
    rw [hneg] at hread
    simpa [hparts] using hread
  | false =>
    rw [hneg] at hread
    rw [if_neg Bool.false_ne_true, List.nil_append]
    split
    next negative body hsign =>
    split at hsign
    · next h => exact absurd h (pointed_ne_sign_cons (by decide) _)
    · next h => exact absurd h (pointed_ne_sign_cons (by decide) _)
    · cases hsign
      simpa [hparts] using hread

theorem ofNotation?_text (d : Decimal) : ofNotation? d.text = some d.dropZeroSign := by
  rw [ofNotation?, ofText?_text, Option.some_or]

end Decimal

end Clearing

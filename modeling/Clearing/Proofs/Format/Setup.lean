import Clearing.Format.Setup
import Clearing.Proofs.Failure
import Clearing.Proofs.Format.Units

/-!
A setup comes back from its text.

Every setup does, before it is checked: names in any characters, numbers up to the ends of their
widths, any number of markets, the same market twice.  So what the text of a setup is read as is
decided by the checks alone (`Setup.ofText_text`), and a setup that passes them is read as itself.
-/

namespace Clearing

open Codec

instance : Lawful Limits where
  decode_encode x := by
    simp only [encode, decode]
    rw [fieldsOf?_record (by decide) rfl]
    simp

instance : Lawful Listing where
  decode_encode x := by
    simp only [encode, decode]
    rw [fieldsOf?_record (by decide) rfl]
    simp

instance : Lawful Setup where
  decode_encode x := by
    simp only [encode, decode]
    rw [fieldsOf?_record (by decide) rfl]
    simp

namespace Setup

/-- Reading the text of a setup is checking the setup. -/
theorem ofText_text (s : Setup) : Setup.ofText s.text = s.validate.map fun _ => s := by
  unfold Setup.ofText text
  rw [Codec.ofText?_indented (decode_encode s)]
  dsimp only
  cases s.validate <;> rfl

/-- **The text of a setup is read as that setup exactly if the setup passes its checks.** -/
theorem ofText_text_eq_ok_iff (s : Setup) :
    Setup.ofText s.text = .ok s ↔ s.validate = .ok () := by
  rw [ofText_text]
  cases s.validate with
  | error e => simp [Except.map]
  | ok u => simp [Except.map]

end Setup

end Clearing

import Clearing.Format.Deleverage
import Clearing.Format.Funding
import Clearing.Format.Margin
import Clearing.Proofs.Json.Codec

/-!
Units and terms come back from their JSON.

Position numbers are the exception among the units: they are counted without a bound, and one that
does not fit 64 bits is written but not read.  The terms of a market hold none.
-/

namespace Clearing

open Codec

instance : Lawful MarketId := .wrapping fun _ => rfl

instance : Lawful AccountId := .wrapping fun _ => rfl

instance : Lawful Leverage := .wrapping fun _ => rfl

instance : Lawful Bps := .wrapping fun _ => rfl

instance : Lawful Instant := .wrapping fun _ => rfl

instance : Lawful Side := .choice fun s => by cases s <;> decide

theorem field_of_positionId {p : PositionId} (h : p.val < UInt64.size) :
    field (some (Json.of p)) = some p := by
  show (decode (encode p.val)).map PositionId.mk = some p
  rw [decode_encode_nat h, Option.map_some]

/-! ### The terms of a market -/

instance : Lawful MarginTier where
  decode_encode t := by
    simp only [encode, decode]
    rw [fieldsOf?_record (by decide) rfl]
    simp

instance : Lawful DeleverageTerms where
  decode_encode t := by
    simp only [encode, decode]
    rw [fieldsOf?_record (by decide) rfl]
    simp

instance : Lawful FundingTerms where
  decode_encode t := by
    simp only [encode, decode]
    rw [fieldsOf?_record (by decide) rfl]
    simp

end Clearing

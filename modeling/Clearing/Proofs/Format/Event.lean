import Clearing.Format.Event
import Clearing.Proofs.Format.Units

/-!
An event comes back from its text.

Every kind of event does, with all that it holds, as long as its numbers fit 64 bits
(`Payload.Fits`).  Its decimals are read back with all their digits and decimals, so that each is
the same number as before; only a zero that carries a minus sign is read back without it.
-/

namespace Clearing

open Codec

instance : Lawful CloseReason := .choice fun r => by cases r <;> decide

/-! ### The decimals of an event

`mapDecimals f` is an event with `f` in place of each of its decimals and all else as it was.
-/

def PositionOpened.mapDecimals (f : Decimal → Decimal) (e : PositionOpened) : PositionOpened :=
  { e with
    size := f e.size
    collateral := f e.collateral
    entryPrice := f e.entryPrice
    liquidationPrice := f e.liquidationPrice }

def PositionModified.mapDecimals (f : Decimal → Decimal) (e : PositionModified) :
    PositionModified :=
  { e with
    oldSize := f e.oldSize
    newSize := f e.newSize
    oldCollateral := f e.oldCollateral
    newCollateral := f e.newCollateral
    realizedPnl := f e.realizedPnl
    liquidationPrice := f e.liquidationPrice }

def PositionClosed.mapDecimals (f : Decimal → Decimal) (e : PositionClosed) : PositionClosed :=
  { e with
    size := f e.size
    exitPrice := f e.exitPrice
    realizedPnl := f e.realizedPnl }

def PositionLiquidated.mapDecimals (f : Decimal → Decimal) (e : PositionLiquidated) :
    PositionLiquidated :=
  { e with
    size := f e.size
    price := f e.price
    realizedPnl := f e.realizedPnl }

def DeleverageTriggered.mapDecimals (f : Decimal → Decimal) (e : DeleverageTriggered) :
    DeleverageTriggered :=
  { e with
    sizeToClose := f e.sizeToClose
    totalClosed := f e.totalClosed
    price := f e.price }

def PositionDeleveraged.mapDecimals (f : Decimal → Decimal) (e : PositionDeleveraged) :
    PositionDeleveraged :=
  { e with
    sizeClosed := f e.sizeClosed
    realizedPnl := f e.realizedPnl }

def FundingApplied.mapDecimals (f : Decimal → Decimal) (e : FundingApplied) : FundingApplied :=
  { e with totalPaid := f e.totalPaid }

def FundingPaid.mapDecimals (f : Decimal → Decimal) (e : FundingPaid) : FundingPaid :=
  { e with amount := f e.amount }

namespace Payload

def mapDecimals (f : Decimal → Decimal) : Payload → Payload
  | .positionOpened e => .positionOpened (e.mapDecimals f)
  | .positionModified e => .positionModified (e.mapDecimals f)
  | .positionClosed e => .positionClosed (e.mapDecimals f)
  | .positionLiquidated e => .positionLiquidated (e.mapDecimals f)
  | .deleverageTriggered e => .deleverageTriggered (e.mapDecimals f)
  | .positionDeleveraged e => .positionDeleveraged (e.mapDecimals f)
  | .queueLengthChanged e => .queueLengthChanged e
  | .fundingApplied e => .fundingApplied (e.mapDecimals f)
  | .fundingPaid e => .fundingPaid (e.mapDecimals f)
  | .marginUpdated e => .marginUpdated e
  | .deleverageUpdated e => .deleverageUpdated e

/-- The position numbers, counts and lengths of the payload fit 64 bits. -/
def Fits : Payload → Prop
  | .positionOpened e => e.position.val < UInt64.size
  | .positionModified e => e.position.val < UInt64.size
  | .positionClosed e => e.position.val < UInt64.size
  | .positionLiquidated e => e.position.val < UInt64.size
  | .deleverageTriggered e => e.execution < UInt64.size ∧ e.liquidatedPosition.val < UInt64.size
  | .positionDeleveraged e =>
    e.execution < UInt64.size ∧ e.position.val < UInt64.size ∧ e.rank < UInt64.size
  | .queueLengthChanged e => e.oldLength < UInt64.size ∧ e.newLength < UInt64.size
  | .fundingApplied e => e.positions < UInt64.size
  | .fundingPaid e => e.position.val < UInt64.size
  | .marginUpdated _ => True
  | .deleverageUpdated _ => True

end Payload

namespace Event

def mapDecimals (f : Decimal → Decimal) (e : Event) : Event :=
  { e with payload := e.payload.mapDecimals f }

/-- The numbers of the event fit 64 bits. -/
def Fits (e : Event) : Prop :=
  e.id < UInt64.size ∧ e.payload.Fits

end Event

/-! ### Reading the kinds of events -/

theorem PositionOpened.decode_encode {e : PositionOpened} (h : e.position.val < UInt64.size) :
    decode (encode e) = some (e.mapDecimals .dropZeroSign) := by
  simp only [encode, decode]
  rw [fieldsOf?_record (by decide) rfl]
  simp [field_of_positionId h, mapDecimals]

theorem PositionModified.decode_encode {e : PositionModified} (h : e.position.val < UInt64.size) :
    decode (encode e) = some (e.mapDecimals .dropZeroSign) := by
  simp only [encode, decode]
  rw [fieldsOf?_record (by decide) rfl]
  simp [field_of_positionId h, mapDecimals]

theorem PositionClosed.decode_encode {e : PositionClosed} (h : e.position.val < UInt64.size) :
    decode (encode e) = some (e.mapDecimals .dropZeroSign) := by
  simp only [encode, decode]
  rw [fieldsOf?_record (by decide) rfl]
  simp [field_of_positionId h, mapDecimals]

theorem PositionLiquidated.decode_encode {e : PositionLiquidated}
    (h : e.position.val < UInt64.size) :
    decode (encode e) = some (e.mapDecimals .dropZeroSign) := by
  simp only [encode, decode]
  rw [fieldsOf?_record (by decide) rfl]
  simp [field_of_positionId h, mapDecimals]

theorem DeleverageTriggered.decode_encode {e : DeleverageTriggered}
    (hexecution : e.execution < UInt64.size) (hposition : e.liquidatedPosition.val < UInt64.size) :
    decode (encode e) = some (e.mapDecimals .dropZeroSign) := by
  simp only [encode, decode]
  rw [fieldsOf?_record (by decide) rfl]
  simp [field_of_nat hexecution, field_of_positionId hposition, mapDecimals]

theorem PositionDeleveraged.decode_encode {e : PositionDeleveraged}
    (hexecution : e.execution < UInt64.size) (hposition : e.position.val < UInt64.size)
    (hrank : e.rank < UInt64.size) :
    decode (encode e) = some (e.mapDecimals .dropZeroSign) := by
  simp only [encode, decode]
  rw [fieldsOf?_record (by decide) rfl]
  simp [field_of_nat hexecution, field_of_positionId hposition, field_of_nat hrank, mapDecimals]

theorem QueueLengthChanged.decode_encode {e : QueueLengthChanged} (hold : e.oldLength < UInt64.size)
    (hnew : e.newLength < UInt64.size) : decode (encode e) = some e := by
  simp only [encode, decode]
  rw [fieldsOf?_record (by decide) rfl]
  simp [field_of_nat hold, field_of_nat hnew]

theorem FundingApplied.decode_encode {e : FundingApplied} (h : e.positions < UInt64.size) :
    decode (encode e) = some (e.mapDecimals .dropZeroSign) := by
  simp only [encode, decode]
  rw [fieldsOf?_record (by decide) rfl]
  simp [field_of_nat h, mapDecimals]

theorem FundingPaid.decode_encode {e : FundingPaid} (h : e.position.val < UInt64.size) :
    decode (encode e) = some (e.mapDecimals .dropZeroSign) := by
  simp only [encode, decode]
  rw [fieldsOf?_record (by decide) rfl]
  simp [field_of_positionId h, mapDecimals]

/-- A tier that was there before is told from none. -/
theorem MarginTier.encode_ne_null (t : MarginTier) : encode t ≠ .null :=
  nofun

instance : Lawful MarginUpdated where
  decode_encode e := by
    have hprevious : field (some (Json.of e.previous)) = some e.previous :=
      decode_encode_option MarginTier.encode_ne_null e.previous
    simp only [encode, decode]
    rw [fieldsOf?_record (by decide) rfl]
    simp [hprevious]

instance : Lawful DeleverageUpdated where
  decode_encode e := by
    simp only [encode, decode]
    rw [fieldsOf?_record (by decide) rfl]
    simp

/-! ### Reading an event -/

/-- What is written under the name of its kind is read as that kind. -/
theorem bind_caseOf?_case {α : Type} [Codec α] {name : String} {a b : α} {kind : α → Payload}
    {read : String × Json → Option Payload}
    (hread : ∀ held, read (name, held) = (decode held).bind fun a => some (kind a))
    (h : decode (encode a) = some b) : (caseOf? (case_ name a)).bind read = some (kind b) := by
  rw [caseOf?_case, Option.bind_some, hread, h, Option.bind_some]

/-- A payload is read back as the kind that it is. -/
theorem Payload.decode_encode {p : Payload} (h : p.Fits) :
    decode (encode p) = some (p.mapDecimals .dropZeroSign) := by
  cases p with
  | positionOpened e =>
    exact bind_caseOf?_case (fun _ => rfl) (PositionOpened.decode_encode h)
  | positionModified e =>
    exact bind_caseOf?_case (fun _ => rfl) (PositionModified.decode_encode h)
  | positionClosed e =>
    exact bind_caseOf?_case (fun _ => rfl) (PositionClosed.decode_encode h)
  | positionLiquidated e =>
    exact bind_caseOf?_case (fun _ => rfl) (PositionLiquidated.decode_encode h)
  | deleverageTriggered e =>
    exact bind_caseOf?_case (fun _ => rfl) (DeleverageTriggered.decode_encode h.1 h.2)
  | positionDeleveraged e =>
    exact bind_caseOf?_case (fun _ => rfl) (PositionDeleveraged.decode_encode h.1 h.2.1 h.2.2)
  | queueLengthChanged e =>
    exact bind_caseOf?_case (fun _ => rfl) (QueueLengthChanged.decode_encode h.1 h.2)
  | fundingApplied e =>
    exact bind_caseOf?_case (fun _ => rfl) (FundingApplied.decode_encode h)
  | fundingPaid e =>
    exact bind_caseOf?_case (fun _ => rfl) (FundingPaid.decode_encode h)
  | marginUpdated e =>
    exact bind_caseOf?_case (fun _ => rfl) (Lawful.decode_encode e)
  | deleverageUpdated e =>
    exact bind_caseOf?_case (fun _ => rfl) (Lawful.decode_encode e)

namespace Event

theorem decode_encode {e : Event} (h : e.Fits) :
    decode (encode e) = some (e.mapDecimals .dropZeroSign) := by
  have hpayload : field (some (Json.of e.payload)) = some (e.payload.mapDecimals .dropZeroSign) :=
    Payload.decode_encode h.2
  simp only [encode, decode]
  rw [fieldsOf?_record (by decide) rfl]
  simp [field_of_nat h.1, hpayload, mapDecimals]

/-- **An event is read back from each of its texts as it was, every decimal as the number that it
is and with its scale.** -/
theorem ofText?_texts (e : Event) (h : e.Fits) :
    Codec.ofText? (Json.of e).line = some (e.mapDecimals .dropZeroSign) ∧
      Codec.ofText? (Json.of e).indented = some (e.mapDecimals .dropZeroSign) ∧
      ∀ d : Decimal, d.dropZeroSign.cmp d = .eq ∧ d.dropZeroSign.scale = d.scale := by
  have hread := decode_encode h
  exact ⟨Codec.ofText?_line hread, Codec.ofText?_indented hread,
    fun d => ⟨d.cmp_dropZeroSign, d.dropZeroSign_scale⟩⟩

/-- A position reduced to the smallest size that there is, at a profit of minus zero. -/
def sampleReduced : Event where
  id := 18446744073709551615
  timestamp := ⟨-9223372036854775808⟩
  payload := .positionModified {
    position := ⟨18446744073709551615⟩
    market := ⟨4294967295⟩
    owner := ⟨0⟩
    oldSize := .greatest
    newSize := { Decimal.one with scale := Decimal.maxScale, scale_le := Nat.le_refl _ }
    oldCollateral := -Decimal.greatest
    newCollateral := .zero
    realizedPnl := { -Decimal.zero with scale := Decimal.maxScale, scale_le := Nat.le_refl _ }
    liquidationPrice := Price.epsilon }

/-- The minus sign of the profit is all that is lost. -/
theorem ofText?_texts_reduced :
    sampleReduced.Fits ∧
      Codec.ofText? (Json.of sampleReduced).line = some (sampleReduced.mapDecimals .dropZeroSign) ∧
      Codec.ofText? (Json.of sampleReduced).indented
        = some (sampleReduced.mapDecimals .dropZeroSign) ∧
      sampleReduced.mapDecimals .dropZeroSign ≠ sampleReduced := by
  have hfits : sampleReduced.Fits :=
    ⟨by decide, show (18446744073709551615 : Nat) < UInt64.size by decide⟩
  obtain ⟨hline, hindented, -⟩ := ofText?_texts sampleReduced hfits
  exact ⟨hfits, hline, hindented, by decide⟩

end Event

end Clearing

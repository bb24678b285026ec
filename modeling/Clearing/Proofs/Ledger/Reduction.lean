import Clearing.Proofs.Ledger.Continuity

/-!
Taking a part off a position, by force or at the will of its owner.

The two are written out separately, with different checks around the same arithmetic.  What only
one of them checks never decides: the owner asks for no other collateral, and every open position
has some (`Collateralized`).  So both come to `takePart`, and one can be read off the other
(`forceReduce_eq_takePart`, `modify_eq_takePart`), errors included.
-/

namespace Clearing

open Decimal

namespace Ledger

variable {l next : Ledger} {id : PositionId}

/-! ### Collateral -/

/-- Every open position has collateral. -/
def Collateralized (l : Ledger) : Prop :=
  ∀ id p, l.position? id = some p → zero < p.collateral

theorem Collateralized.startingAt (first : Nat) : (Ledger.startingAt first).Collateralized :=
  fun _ _ h => by cases h

theorem Collateralized.run (h : l.Collateralized) (hindexed : l.WellIndexed)
    {ops : List Operation} {replies : List (Except Refusal Reply)}
    (hrun : l.run ops = .ok (replies, next)) : next.Collateralized :=
  run_positions (Q := fun _ => True)
    (fun _ _ _ _ _ _ _ hcollateral => hcollateral)
    (fun _ _ hcurrent hp => hp.collateral_pos hcurrent) h hindexed (fun _ _ => trivial) hrun

/-! ### The part that is taken -/

/-- Takes a part off a position: what modifying and forcing have in common. -/
def takePart (l : Ledger) (p : Position) (amount : Decimal) (price : Price)
    (schedule : MarginSchedule) (now : Instant) : Attempt (Posted Amount) := do
  let some tier := schedule.tier? p.market | refuse (.marketNotConfigured p.market)
  let pnl ← computing (p.pnlAt price)
  let realized ← computing (proportionalPnl pnl amount p.size)
  let size ← computing (p.size.sub amount "position size")
  let total ← computing (p.realizedPnl.add realized "realized pnl")
  let (next, notice) ← l.amend p { p with size := size, realizedPnl := total } price tier now
  return ⟨realized, next, [notice]⟩

/-- What a forced reduction reports, of a part that was taken. -/
def Posted.forced (posted : Posted Amount) (id : PositionId) (p : Position) (amount : Decimal) :
    Posted Reduction :=
  ⟨⟨id, p.owner, p.market, p.side, amount, posted.result, false⟩, posted.ledger, posted.notices⟩

theorem get_of_held {p : Position} (hp : l.position? id = some p) : l.get id = .ok p := by
  unfold get
  rw [find_eq_ok.2 hp]
  rfl

/-- A size that is lowered by less than all of it realizes its share of the gain. -/
theorem resize_neg {current : Position} {amount : Decimal} (hpos : zero < amount)
    (hpart : amount < current.size) (pnl : Amount) (price : Price) :
    resize current (-amount) pnl price = (do
      let realized ← computing (proportionalPnl pnl amount current.size)
      let size ← computing (current.size.sub amount "position size")
      return ({ current with size := size }, realized)) := by
  unfold resize
  rw [if_pos (Decimal.neg_lt_zero.2 hpos), Decimal.neg_neg]
  dsimp only
  rw [if_neg (Decimal.not_le.2 hpart)]

section part

variable {p : Position} {amount : Decimal} (hp : l.position? id = some p) (hpos : zero < amount)
  (hpart : amount < p.size) (price : Price) (schedule : MarginSchedule) (now : Instant)

include hp hpos hpart

theorem forceReduce_eq_takePart :
    l.forceReduce id amount price schedule now =
      (l.takePart p amount price schedule now).map (·.forced id p amount) := by
  unfold forceReduce takePart
  rw [if_neg (Decimal.not_le.2 hpos), get_of_held hp]
  show (if p.size ≤ amount then _ else _) = _
  rw [if_neg (Decimal.not_le.2 hpart)]
  cases schedule.tier? p.market with
  | none => rfl
  | some tier =>
    -- From here on both take the same steps, and differ in what they return.
    refine bind_eq_map_bind fun pnl => bind_eq_map_bind fun realized => ?_
    refine bind_eq_map_bind fun size => bind_eq_map_bind fun total => ?_
    exact bind_eq_map_bind fun _ => rfl

theorem modify_eq_takePart (hcollateral : zero < p.collateral) :
    l.modify id (-amount) .zero price schedule now = l.takePart p amount price schedule now := by
  have hshrinks : ¬ zero < -amount := by
    have hneg := Decimal.neg_lt_zero.2 hpos
    rw [lt_iff_units] at hneg ⊢
    omega
  have hrisk : ¬ (zero < -amount ∨ zero < zero) := by
    rintro (hgrows | hzero)
    · exact hshrinks hgrows
    · exact absurd hzero (by decide)
  have hkeeps : computing (p.collateral.add zero "collateral") = pure p.collateral := by
    rw [add_zero_of_pos hcollateral]
    rfl
  have hget : l.get id = pure p := get_of_held hp
  unfold modify takePart
  rw [hget, pure_bind]
  simp only [if_neg hshrinks]
  cases schedule.tier? p.market with
  | none => rfl
  | some tier =>
    -- No margin is asked for, and the collateral is what it was, above zero.
    dsimp only
    refine bind_congr fun pnl => ?_
    simp only [resize_neg hpos hpart, bind_assoc, pure_bind, hkeeps,
      if_neg (Decimal.not_le.2 hcollateral), if_neg hrisk]

end part

/-- **A part taken by force is the part its owner would take off.** Both are refused or stopped
alike, or realize the same gain, leave the same ledger and report the same notices. -/
theorem forceReduce_eq_modify {first : Nat} {ops : List Operation}
    {replies : List (Except Refusal Reply)} (hl : (startingAt first).run ops = .ok (replies, l))
    {p : Position} (hp : l.position? id = some p) {amount : Decimal} (hpos : zero < amount)
    (hpart : amount < p.size) (price : Price) (schedule : MarginSchedule) (now : Instant) :
    l.forceReduce id amount price schedule now =
      (l.modify id (-amount) .zero price schedule now).map (·.forced id p amount) := by
  have hbacked : l.Collateralized := (Collateralized.startingAt first).run (.startingAt first) hl
  rw [forceReduce_eq_takePart hp hpos hpart,
    modify_eq_takePart hp hpos hpart price schedule now (hbacked id p hp)]

/-- Off a long position of 12 at 100, which its owner took 2 off and topped up, 4 are taken at 110.
They realize 40. -/
theorem forceReduce_eq_modify_fourTenths :
    ∃ replies l p posted,
      (startingAt 1).run
        [.openPosition (sampleOrder ⟨1⟩ .long (.ofUInt32 12)) sampleSchedule .epoch,
          .modify ⟨1⟩ (-.ofUInt32 2) .one (.ofUInt32 90) sampleSchedule .epoch]
        = .ok (replies, l) ∧
      l.position? ⟨1⟩ = some p ∧ zero < Decimal.ofUInt32 4 ∧ .ofUInt32 4 < p.size ∧
      l.modify ⟨1⟩ (-.ofUInt32 4) .zero (.ofUInt32 110) sampleSchedule .epoch = .ok posted ∧
      posted.result = .ofUInt32 40 ∧
      l.forceReduce ⟨1⟩ (.ofUInt32 4) (.ofUInt32 110) sampleSchedule .epoch
        = .ok (posted.forced ⟨1⟩ p (.ofUInt32 4)) := by
  obtain ⟨⟨replies, l⟩, hl, htest⟩ := exists_of_succeedsWith
    (fun r : List (Except Refusal Reply) × Ledger => succeedsWith
      (fun posted => decide (posted.result = .ofUInt32 40 ∧
        ∃ p ∈ r.2.position? ⟨1⟩, Decimal.ofUInt32 4 < p.size))
      (r.2.modify ⟨1⟩ (-.ofUInt32 4) .zero (.ofUInt32 110) sampleSchedule .epoch))
    (x := (startingAt 1).run
      [.openPosition (sampleOrder ⟨1⟩ .long (.ofUInt32 12)) sampleSchedule .epoch,
        .modify ⟨1⟩ (-.ofUInt32 2) .one (.ofUInt32 90) sampleSchedule .epoch])
    (by decide +kernel)
  obtain ⟨posted, hposted, hresult⟩ := exists_of_succeedsWith _ htest
  obtain ⟨hresult, p, hp, hpart⟩ := of_decide_eq_true hresult
  have hpos : zero < Decimal.ofUInt32 4 := by decide
  refine ⟨replies, l, p, posted, hl, hp, hpos, hpart, hposted, hresult, ?_⟩
  rw [forceReduce_eq_modify hl hp hpos hpart, hposted]
  rfl

end Ledger

end Clearing

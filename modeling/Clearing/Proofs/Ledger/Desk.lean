import Clearing.Proofs.Funding.Settlement
import Clearing.Proofs.Ledger.History
import Clearing.Proofs.Ledger.Margins

/-!
A ledger with the schedule it goes by.

At a desk operations are carried out by the schedule of the desk, funding is settled, and tiers
are installed and switched on and off.  Main statement: `run_backed`.  As long as the margins of its
market are not replaced, a position has the collateral and the leverage that were asked for when
it was opened, whatever becomes of it.

Three kinds of step have to be told apart for this, by `Becomes`: a position that was assessed is
backed or asks for less than before, one that was marked or kept stands on the same terms, and a
new one has a number of its own.
-/

namespace Clearing

open Decimal

/-- A ledger and the schedule it goes by. -/
structure Desk where
  schedule : MarginSchedule
  ledger : Ledger

namespace Ledger

/-- The schedule by which an operation computes margins, if it computes any. -/
def Operation.schedule? : Operation → Option MarginSchedule
  | .openPosition _ schedule _ => some schedule
  | .modify _ _ _ _ schedule _ => some schedule
  | .forceReduce _ _ _ schedule _ => some schedule
  | .deleverage _ schedule _ _ => some schedule
  | .close .. | .refresh .. | .refreshMarket .. | .applyFunding .. => none

theorem Operation.schedule?_of_assessment {op : Operation} {schedule : MarginSchedule}
    {reply : Reply} {id : PositionId} {price : Price}
    (h : op.assessment? reply id = some (schedule, price)) : op.schedule? = some schedule := by
  unfold Operation.assessment? at h
  split at h
  case h_5 => cases h
  all_goals
    rw [Option.ite_none_right_eq_some, Option.some.injEq, Prod.mk.injEq] at h
    exact congrArg some h.2.1

variable {l next : Ledger}

theorem perform_openPosition {order : Order} {schedule : MarginSchedule} {now : Instant}
    {posted : Posted PositionId} (h : l.openPosition order schedule now = .ok posted) :
    l.perform (.openPosition order schedule now)
      = .ok (.ok (.opened posted.result), posted.ledger) := by
  have hanswer : l.answer (.openPosition order schedule now)
      = .ok (.opened posted.result, posted.ledger) :=
    inTermsOf_eq_ok.2 (map_eq_ok.2 ⟨posted, h, rfl⟩)
  exact perform_of_answer hanswer

theorem perform_applyFunding {payments : List (PositionId × Amount)} {index : Decimal}
    {now : Instant} (h : l.applyFunding payments index now = .ok next) :
    l.perform (.applyFunding payments index now) = .ok (.ok .fundingApplied, next) := by
  have hanswer : l.answer (.applyFunding payments index now) = .ok (.fundingApplied, next) :=
    bind_eq_ok.2 ⟨next, refusing_eq_ok.2 h, rfl⟩
  exact perform_of_answer hanswer

end Ledger

namespace Desk

/-- No market and no position. -/
def startingAt (first : Nat) : Desk :=
  ⟨.empty, .startingAt first⟩

/-- What can happen at a desk. -/
inductive Step (d : Desk) : Desk → Prop
  | operated {op : Ledger.Operation} {reply : Except Ledger.Refusal Ledger.Reply} {next : Ledger}
      (goesBy : ∀ schedule ∈ op.schedule?, schedule = d.schedule)
      (performed : d.ledger.perform op = .ok (reply, next)) :
    Step d { d with ledger := next }
  | settled {book book' : FundingBook} {market : MarketId} {now : Instant}
      {settlement : FundingSettlement} {next : Ledger}
      (settled : book.settle market d.ledger now = .ok (settlement, book', next)) :
    Step d { d with ledger := next }
  | installed {market : MarketId} {tier : MarginTier} {old : Option MarginTier}
      {next : MarginSchedule} (installed : d.schedule.install market tier = .ok (old, next)) :
    Step d { d with schedule := next }
  | switched {market : MarketId} {active : Bool} {next : MarginSchedule}
      (switched : d.schedule.setActive market active = .ok next) :
    Step d { d with schedule := next }

/-- Steps one after the other. -/
abbrev Run : Desk → Desk → Prop :=
  Relation.ReflTransGen Step

/-- Steps one after the other, none of which replaces the margins of a market. -/
abbrev SteadyRun (market : MarketId) : Desk → Desk → Prop :=
  Relation.ReflTransGen fun d next => d.Step next ∧ d.schedule.SameMargins next.schedule market

variable {d next : Desk}

/-- A step leaves the ledger alone, or it carries out an operation and leaves the schedule
alone. -/
theorem Step.ledger_eq (h : d.Step next) :
    next.ledger = d.ledger ∨
      next.schedule = d.schedule ∧ ∃ op reply, (∀ schedule ∈ op.schedule?, schedule = d.schedule) ∧
        d.ledger.perform op = .ok (reply, next.ledger) := by
  cases h with
  | operated hgoes hperformed => exact .inr ⟨rfl, _, _, hgoes, hperformed⟩
  | @settled book book' market now settlement ledger hsettled =>
    rcases FundingBook.settle_eq_ok hsettled with ⟨-, hsame⟩ | ⟨rate, periods, plan, index, -,
      hbooked, -⟩
    · exact .inl hsame
    · -- A settlement that charges is a booking of funding.
      exact .inr ⟨rfl, .applyFunding _ index now, _, nofun, Ledger.perform_applyFunding hbooked⟩
  | installed _ => exact .inl rfl
  | switched _ => exact .inl rfl

/-- Accepting an order is a step. -/
theorem step_of_order {order : Order} {now : Instant} {posted : Ledger.Posted PositionId}
    (h : d.ledger.openPosition order d.schedule now = .ok posted) :
    d.Step { d with ledger := posted.ledger } := by
  refine .operated (fun schedule hschedule => ?_) (Ledger.perform_openPosition h)
  exact (Option.some.inj hschedule).symm

/-- A run of a ledger by the schedule of a desk replaces no margins. -/
theorem steadyRun_of_run {market : MarketId} {l last : Ledger} {schedule : MarginSchedule}
    {ops : List Ledger.Operation} {replies : List (Except Ledger.Refusal Ledger.Reply)}
    (hgoes : ∀ op ∈ ops, ∀ used ∈ op.schedule?, used = schedule)
    (h : l.run ops = .ok (replies, last)) : SteadyRun market ⟨schedule, l⟩ ⟨schedule, last⟩ := by
  refine inTurn_invariant (P := fun next => SteadyRun market ⟨schedule, l⟩ ⟨schedule, next⟩)
    (fun mid hrun op hop reply next hperform => ?_) .refl h
  have hstep : Step ⟨schedule, mid⟩ ⟨schedule, next⟩ := .operated (hgoes op hop) hperform
  exact hrun.tail ⟨hstep, rfl⟩

/-! ### Sound desks -/

/-- The ledger is sound, and the schedule has no tier with a defect. -/
structure Sound (d : Desk) : Prop where
  ledger : d.ledger.Sound
  schedule : d.schedule.Valid

theorem Sound.startingAt (first : Nat) : (startingAt first).Sound :=
  ⟨.startingAt first, fun _ _ h => by cases h⟩

theorem Sound.step (h : d.Sound) (hstep : d.Step next) : next.Sound where
  ledger := by
    rcases hstep.ledger_eq with hsame | ⟨-, op, reply, -, hperformed⟩
    · exact hsame ▸ h.ledger
    · exact Ledger.perform_invariant (fun hl => hl.indexed.stored) Ledger.Sound.opens
        Ledger.Sound.change h.ledger hperformed
  schedule := by
    cases hstep with
    | operated _ _ => exact h.schedule
    | settled _ => exact h.schedule
    | installed hinstalled =>
      obtain ⟨htier, rfl⟩ := MarginSchedule.install_eq_ok hinstalled
      exact h.schedule.insert htier
    | switched hswitched =>
      obtain ⟨tier, htier, rfl⟩ := MarginSchedule.setActive_eq_ok hswitched
      have hvalid := h.schedule _ _ htier
      exact h.schedule.insert hvalid

theorem Sound.run {last : Desk} (h : d.Sound) (hrun : Run d last) : last.Sound := by
  induction hrun with
  | refl => exact h
  | tail _ hstep ih => exact ih.step hstep

/-! ### One position over a run -/

/-- A number is taken, and the position it stands for meets the schedule. -/
structure Holds (market : MarketId) (id : PositionId) (d : Desk) : Prop where
  numbered : id.val < d.ledger.nextNumber
  meets : ∀ p, d.ledger.position? id = some p → p.Meets d.schedule market

variable {market : MarketId} {id : PositionId}

theorem Holds.answer {op : Ledger.Operation} {reply : Ledger.Reply} (hsound : d.Sound)
    (hnext : next.Sound) (h : d.Holds market id)
    (hgoes : ∀ schedule ∈ op.schedule?, schedule = d.schedule)
    (hanswer : d.ledger.answer op = .ok (reply, next.ledger)) {p : Position}
    (hp : next.ledger.position? id = some p) : p.Meets d.schedule market := by
  obtain ⟨e, he, rfl⟩ := Ledger.exists_entry hp
  obtain rfl : e.position.id = id := hnext.ledger.indexed.stored _ _ hp
  have hsize := hnext.ledger.sized _ _ hp
  cases Ledger.answer_becomes hsound.ledger.indexed hanswer hnext.ledger.indexed.stored he with
  | assessed hassess hlisted _ _ hadmits =>
    cases hgoes _ (Ledger.Operation.schedule?_of_assessment hassess)
    cases hadmits with
    | opened hnumber =>
      have hlt := h.numbered
      rw [hnumber] at hlt
      exact absurd hlt (Nat.lt_irrefl _)
    | amended hheld hsame hbacked =>
      exact (h.meets _ hheld).of_assessment hsound.schedule hsize hsame hlisted hbacked
  | marked _ _ hheld hterms => exact (h.meets _ (Ledger.position?_of_entry hheld)).of_terms hterms
  | kept _ hheld hterms => exact (h.meets _ (Ledger.position?_of_entry hheld)).of_terms hterms

theorem Holds.step (hsound : d.Sound) (h : d.Holds market id) (hstep : d.Step next)
    (hmargins : d.schedule.SameMargins next.schedule market) : next.Holds market id := by
  rcases hstep.ledger_eq with hsame | ⟨hschedule, op, reply, hgoes, hperformed⟩
  · exact ⟨hsame ▸ h.numbered, fun p hp => (h.meets p (hsame ▸ hp)).of_sameMargins hmargins⟩
  · constructor
    · rcases Ledger.perform_numbers hsound.ledger.indexed.stored hperformed with
        ⟨-, hnumber⟩ | ⟨-, hnumber⟩
      · rw [hnumber]
        exact Nat.lt_succ_of_lt h.numbered
      · rw [hnumber]
        exact h.numbered
    · intro p hp
      rw [hschedule]
      rcases orStay_eq_ok.1 hperformed with ⟨r, -, hanswer⟩ | ⟨_, -, -, hsame⟩
      · exact h.answer hsound (hsound.step hstep) hgoes hanswer hp
      · exact h.meets p (hsame ▸ hp)

theorem Holds.run {last : Desk} (hsound : d.Sound) (h : d.Holds market id)
    (hrun : SteadyRun market d last) : last.Holds market id := by
  have hboth : last.Sound ∧ last.Holds market id := by
    induction hrun with
    | refl => exact ⟨hsound, h⟩
    | tail _ hstep ih => exact ⟨ih.1.step hstep.1, ih.2.step ih.1 hstep.1 hstep.2⟩
  exact hboth.2

/-- A position that was just opened meets the schedule. -/
theorem Holds.of_order {order : Order} {now : Instant} {posted : Ledger.Posted PositionId}
    (h : d.ledger.openPosition order d.schedule now = .ok posted) :
    Holds order.market posted.result { d with ledger := posted.ledger } := by
  obtain ⟨tier, price, notice, hactive, hleverage, hbacked, -, hnumber, -, hopens⟩ :=
    Ledger.openPosition_terms h
  constructor
  · rw [Ledger.WellIndexed.nextNumber_opens hopens, hnumber]
    exact Nat.lt_succ_self _
  · intro p hp
    have hid : posted.result = (order.toPosition posted.result price now).id := rfl
    rw [hopens.position?, if_pos hid, Option.some.injEq] at hp
    subst hp
    exact ⟨rfl, tier, (Option.filter_eq_some_iff.1 hactive).1, hbacked, hleverage⟩

/-- **Positions stay backed.**  After a position was opened, and for as long as no margins of its
market are replaced, the collateral of the position covers its initial margin, which can be
computed, and its leverage is within the cap. -/
theorem run_backed {first : Nat} {before last : Desk} {order : Order} {now : Instant}
    {posted : Ledger.Posted PositionId} {p : Position} (hbefore : Run (startingAt first) before)
    (hopened : before.ledger.openPosition order before.schedule now = .ok posted)
    (hrun : SteadyRun order.market { before with ledger := posted.ledger } last)
    (hp : last.ledger.position? posted.result = some p) :
    ∃ tier notional required, last.schedule.tier? order.market = some tier ∧
      p.notional = .ok notional ∧ tier.initialMargin notional = .ok required ∧
      required ≤ p.collateral ∧ p.leverage ≤ tier.maxLeverage := by
  have hstep : before.Step { before with ledger := posted.ledger } := step_of_order hopened
  have hsound := ((Sound.startingAt first).run hbefore).step hstep
  obtain ⟨-, tier, htier, ⟨-, notional, required, hnotional, hrequired, hcovered⟩, hleverage⟩ :=
    ((Holds.of_order hopened).run hsound hrun).meets p hp
  exact ⟨tier, notional, required, htier, hnotional, hrequired, hcovered, hleverage⟩

/-- An order with as much collateral as it needs. -/
def sampleTight : Order :=
  { Ledger.sampleOrder ⟨1⟩ .long (.ofUInt32 2) with collateral := .ofUInt32 20 }

/-- Some is added, then some is taken by force. -/
def sampleChanges : List Ledger.Operation :=
  [.modify ⟨1⟩ .one (.ofUInt32 20) (.ofUInt32 110) Ledger.sampleSchedule .epoch,
    .forceReduce ⟨1⟩ .one (.ofUInt32 95) Ledger.sampleSchedule .epoch]

/-- The position is still backed when its market is switched off. -/
theorem run_backed_switched :
    ∃ before posted last p, Run (startingAt 1) before ∧
      before.ledger.openPosition sampleTight before.schedule .epoch = .ok posted ∧
      SteadyRun sampleTight.market { before with ledger := posted.ledger } last ∧
      last.ledger.position? posted.result = some p ∧
      (last.schedule.activeTier? sampleTight.market = none ∧ p.collateral = .ofUInt32 40) ∧
      ∃ tier notional required, last.schedule.tier? sampleTight.market = some tier ∧
        p.notional = .ok notional ∧ tier.initialMargin notional = .ok required ∧
        required ≤ p.collateral ∧ p.leverage ≤ tier.maxLeverage := by
  have hinstalled : MarginSchedule.empty.install ⟨1⟩ .standard
      = .ok (none, Ledger.sampleSchedule) := rfl
  have hbefore : Run (startingAt 1) ⟨Ledger.sampleSchedule, .startingAt 1⟩ :=
    .single (.installed hinstalled)
  obtain ⟨posted, hopened, htest⟩ := exists_of_succeedsWith
    (fun posted : Ledger.Posted PositionId => succeedsWith
      (fun r : List (Except Ledger.Refusal Ledger.Reply) × Ledger =>
        decide ((r.2.position? posted.result).map (·.collateral) = some (.ofUInt32 40)))
      (posted.ledger.run sampleChanges))
    (x := (Ledger.startingAt 1).openPosition sampleTight Ledger.sampleSchedule .epoch)
    (by decide +kernel)
  obtain ⟨⟨replies, l⟩, hrun, hcollateral⟩ := exists_of_succeedsWith _ htest
  obtain ⟨p, hp, hcollateral⟩ := Option.map_eq_some_iff.1 (of_decide_eq_true hcollateral)
  obtain ⟨off, hoff, hinactive⟩ := exists_of_succeedsWith
    (fun s : MarginSchedule => decide (s.activeTier? ⟨1⟩ = none))
    (x := Ledger.sampleSchedule.setActive ⟨1⟩ false) (by decide +kernel)
  have hsteady : SteadyRun ⟨1⟩ ⟨Ledger.sampleSchedule, posted.ledger⟩ ⟨off, l⟩ :=
    (steadyRun_of_run (by decide) hrun).tail
      ⟨.switched hoff, MarginSchedule.sameMargins_setActive hoff _⟩
  exact ⟨_, posted, ⟨off, l⟩, p, hbefore, hopened, hsteady, hp,
    ⟨of_decide_eq_true hinactive, hcollateral⟩, run_backed hbefore hopened hsteady hp⟩

end Desk

end Clearing

import Clearing.Proofs.Deleverage.Walk
import Clearing.Proofs.Run
import Mathlib.Logic.Relation

/-!
Runs of operations, taken apart into steps.

An operation that succeeds opens a position and hands out its number, or it is a sequence of
changes that hand out none (`answer_eq_ok`).  What both kinds of step keep, every run keeps
(`run_invariant`), whatever it was asked to do and however much of that was refused.
-/

namespace Clearing

namespace Ledger

/-- Steps that hand out no number, one after the other. -/
abbrev Changes : Ledger → Ledger → Prop :=
  Relation.ReflTransGen Change

variable {l next : Ledger}

/-! ### One operation -/

theorem posting_eq_ok {α : Type} {reply : α → Reply} {x : Attempt (Posted α)} {r : Reply}
    (h : answer.posting reply x = .ok (r, next)) :
    ∃ posted, x = .ok posted ∧ r = reply posted.result ∧ next = posted.ledger := by
  unfold answer.posting at h
  rw [inTermsOf_eq_ok, map_eq_ok] at h
  obtain ⟨posted, hx, heq⟩ := h
  cases heq
  exact ⟨posted, hx, rfl, rfl⟩

theorem execute_changes {q left : DeleverageQueue} {schedule : MarginSchedule}
    {shortfall : Shortfall} {now : Instant} {coverage : Coverage}
    (h : q.execute l schedule shortfall now = .ok (coverage, left, next)) : Changes l next :=
  DeleverageQueue.execute_invariant (P := Changes l)
    (fun _ _ _ _ _ _ _ hchanges hforced => hchanges.tail (forceReduce_change hforced)) h .refl

/-- Whether an operation can take more than one step. -/
def Operation.walks : Operation → Bool
  | .deleverage .. => true
  | _ => false

/-- All operations but deleveraging take one step. -/
theorem answer_step (hstored : l.Stored) {op : Operation} {reply : Reply}
    (hop : op.walks = false) (h : l.answer op = .ok (reply, next)) :
    (∃ p now notice, reply = .opened p.id ∧ Opens l p now notice next) ∨
      (∀ id, reply ≠ .opened id) ∧ Change l next := by
  cases op with
  | openPosition order schedule now =>
    obtain ⟨posted, hx, rfl, rfl⟩ := posting_eq_ok h
    obtain ⟨price, notice, -, -, hopens⟩ := openPosition_eq_ok hx
    exact .inl ⟨_, now, notice, rfl, hopens⟩
  | modify id sizeDelta collateralDelta price schedule now =>
    obtain ⟨posted, hx, rfl, rfl⟩ := posting_eq_ok h
    exact .inr ⟨by simp, modify_change hx⟩
  | close id price now =>
    obtain ⟨posted, hx, rfl, rfl⟩ := posting_eq_ok h
    obtain ⟨-, hcloses⟩ := close_eq_ok hx
    exact .inr ⟨by simp, .closed hcloses⟩
  | forceReduce id amount price schedule now =>
    obtain ⟨posted, hx, rfl, rfl⟩ := posting_eq_ok h
    exact .inr ⟨by simp, forceReduce_change hx⟩
  | refresh id mark now =>
    obtain ⟨posted, hx, rfl, rfl⟩ := posting_eq_ok h
    rw [refusing_eq_ok] at hx
    exact .inr ⟨by simp, .restated (refresh_restates hstored hx)⟩
  | refreshMarket market mark now =>
    obtain ⟨posted, hx, rfl, rfl⟩ := posting_eq_ok h
    rw [refusing_eq_ok] at hx
    exact .inr ⟨by simp, .restated (refreshMarket_restates hstored hx)⟩
  | applyFunding payments index now =>
    unfold answer at h
    simp only [bind_eq_ok, refusing_eq_ok, pure_eq_ok, Prod.mk.injEq] at h
    obtain ⟨_, hx, rfl, rfl⟩ := h
    exact .inr ⟨by simp, .restated (applyFunding_restates hx)⟩
  | deleverage queue schedule shortfall now => cases hop

theorem deleverage_eq_ok {q : DeleverageQueue} {schedule : MarginSchedule}
    {shortfall : Shortfall} {now : Instant} {reply : Reply}
    (h : l.answer (.deleverage q schedule shortfall now) = .ok (reply, next)) :
    ∃ coverage left, reply = .covered coverage ∧
      q.execute l schedule shortfall now = .ok (coverage, left, next) := by
  unfold answer at h
  simp only [bind_eq_ok, inTermsOf_eq_ok, pure_eq_ok, Prod.mk.injEq] at h
  obtain ⟨⟨coverage, left, _⟩, hx, rfl, rfl⟩ := h
  exact ⟨coverage, left, rfl, hx⟩

/-- **What an operation has done.**  Opening hands out the next number; nothing else hands out
any, and is made of changes. -/
theorem answer_eq_ok (hstored : l.Stored) {op : Operation} {reply : Reply}
    (h : l.answer op = .ok (reply, next)) :
    (∃ p now notice, reply = .opened p.id ∧ Opens l p now notice next) ∨
      (∀ id, reply ≠ .opened id) ∧ Changes l next := by
  cases op with
  | deleverage q schedule shortfall now =>
    obtain ⟨coverage, left, rfl, hx⟩ := deleverage_eq_ok h
    exact .inr ⟨nofun, execute_changes hx⟩
  | _ => exact (answer_step hstored rfl h).imp_right (And.imp_right .single)

/-! ### A whole run -/

theorem perform_of_answer {op : Operation} {reply : Reply} (h : l.answer op = .ok (reply, next)) :
    l.perform op = .ok (.ok reply, next) := by
  unfold perform
  rw [h]
  rfl

section invariant

variable {P : Ledger → Prop}

theorem changes_invariant (hchange : ∀ {l next}, P l → Change l next → P next) (hl : P l)
    (h : Changes l next) : P next := by
  induction h with
  | refl => exact hl
  | tail _ hlast ih => exact hchange ih hlast

variable (hstored : ∀ {l}, P l → l.Stored)
  (hopens : ∀ {l next p now notice}, P l → Opens l p now notice next → P next)
  (hchange : ∀ {l next}, P l → Change l next → P next)

include hstored hopens hchange

theorem perform_invariant {op : Operation} {reply : Except Refusal Reply} (hl : P l)
    (h : l.perform op = .ok (reply, next)) : P next := by
  rcases orStay_eq_ok.1 h with ⟨r, -, hanswer⟩ | ⟨_, -, -, rfl⟩
  · rcases answer_eq_ok (hstored hl) hanswer with ⟨p, now, notice, -, h⟩ | ⟨-, h⟩
    · exact hopens hl h
    · exact changes_invariant hchange hl h
  · exact hl

/-- **What openings and changes keep, every run keeps.** -/
theorem run_invariant {ops : List Operation} {replies : List (Except Refusal Reply)}
    {last : Ledger} (hl : P l) (h : l.run ops = .ok (replies, last)) : P last :=
  inTurn_invariant (fun _ hl _ _ _ _ => perform_invariant hstored hopens hchange hl) hl h

end invariant

/-! ### Samples -/

/-- A market with standard margins. -/
def sampleSchedule : MarginSchedule :=
  ⟨Table.empty.insert ⟨1⟩ .standard⟩

/-- An order in that market at price 100, with ample collateral. -/
def sampleOrder (owner : AccountId) (side : Side) (size : Decimal) : Order :=
  ⟨owner, ⟨1⟩, side, size, .ofUInt32 1000000, .ofUInt32 100, ⟨5⟩⟩

end Ledger

end Clearing

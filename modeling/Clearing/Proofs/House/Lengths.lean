import Clearing.Proofs.House.Course
import Clearing.Proofs.House.Isolation
import Clearing.Proofs.House.Replay
import Mathlib.Data.List.Chain

/-!
The lengths of the queue, as the events tell them.

Whoever reads the events knows at any time how many candidates each side of a market has, without
ever looking at the queue.  A call tells of the two sides of one market only, so this rests on two
facts: what a call puts into the queue and takes out of it is in that market, and a call that tells
of no market leaves the queue alone.

Main statement: `run_lengths`.
-/

namespace Clearing

/-- The change of length that an event tells of one side of a market. -/
def Payload.lengthChange? (lane : Lane) : Payload → Option QueueLengthChanged
  | .queueLengthChanged change =>
    if (⟨change.market, change.side⟩ : Lane) = lane then some change else none
  | _ => none

/-- The changes of length that events tell of one side of a market, in turn. -/
def lengthChanges (lane : Lane) (payloads : List Payload) : List QueueLengthChanged :=
  payloads.filterMap (Payload.lengthChange? lane)

/-- Changes that lead from one length to another: the first begins there, each begins where the one
before it ended, none ends where it began, and the last one ends at the other. -/
structure Leads (start : Nat) (changes : List QueueLengthChanged) (current : Nat) : Prop where
  first : ∀ change ∈ changes.head?, change.oldLength = start
  linked : changes.IsChain fun change next => next.oldLength = change.newLength
  moved : ∀ change ∈ changes, change.oldLength ≠ change.newLength
  last : current = (changes.getLast?.map (·.newLength)).getD start

namespace Leads

theorem nil (start : Nat) : Leads start [] start :=
  ⟨nofun, .nil, nofun, rfl⟩

theorem cons {change : QueueLengthChanged} {changes : List QueueLengthChanged} {current : Nat}
    (hmoved : change.oldLength ≠ change.newLength)
    (hrest : Leads change.newLength changes current) :
    Leads change.oldLength (change :: changes) current where
  first := by
    rintro other hother
    cases hother
    rfl
  linked := List.isChain_cons.2 ⟨hrest.first, hrest.linked⟩
  moved := List.forall_mem_cons.2 ⟨hmoved, hrest.moved⟩
  last := by
    rw [hrest.last, List.getLast?_cons]
    cases changes.getLast? <;> rfl

end Leads

/-! ### What events tell of lengths -/

/-- An event that tells of no length. -/
def Payload.Aside (e : Payload) : Prop :=
  ∀ lane, e.lengthChange? lane = none

theorem lengthChanges_append (lane : Lane) (payloads more : List Payload) :
    lengthChanges lane (payloads ++ more)
      = lengthChanges lane payloads ++ lengthChanges lane more :=
  List.filterMap_append

theorem lengthChanges_of_aside {payloads : List Payload} (haside : ∀ e ∈ payloads, e.Aside)
    (lane : Lane) : lengthChanges lane payloads = [] :=
  List.filterMap_eq_nil_iff.2 fun e he => haside e he lane

namespace DeleverageQueue

variable {q next : DeleverageQueue} {market : MarketId}

/-- The change of one length between two states of the queue, where there is one. -/
def lengthChange (q next : DeleverageQueue) (lane : Lane) : List QueueLengthChanged :=
  if q.length lane = next.length lane then []
  else [⟨lane.market, lane.side, q.length lane, next.length lane⟩]

theorem lengthChange_of_eq {lane : Lane} (h : q.length lane = next.length lane) :
    q.lengthChange next lane = [] :=
  if_pos h

theorem length_eq_of_rankings (h : next.rankings = q.rankings) (lane : Lane) :
    q.length lane = next.length lane :=
  congrArg (·.order.length) (ranking_congr h lane).symm

theorem SameIn.length (h : SameIn market q next) {lane : Lane} (hlane : lane.market = market) :
    q.length lane = next.length lane := by
  subst hlane
  exact congrArg (·.order.length) (h.ranking lane.side).symm

end DeleverageQueue

namespace House

open DeleverageQueue

variable {q queue : DeleverageQueue} {market : MarketId} {lane : Lane}

/-- The events about a market tell of its two sides, and of no other market. -/
theorem lengthChanges_queueChanges (q queue : DeleverageQueue) (market : MarketId) (lane : Lane) :
    lengthChanges lane (queueChanges q queue market)
      = if lane.market = market then q.lengthChange queue lane else [] := by
  obtain ⟨other, side⟩ := lane
  by_cases hmarket : other = market
  · subst hmarket
    rw [if_pos rfl]
    unfold queueChanges lengthChanges lengthChange
    cases side <;>
      by_cases hlong : q.length ⟨other, .long⟩ = queue.length ⟨other, .long⟩ <;>
        by_cases hshort : q.length ⟨other, .short⟩ = queue.length ⟨other, .short⟩ <;>
          simp [hlong, hshort, Payload.lengthChange?]
  · rw [if_neg hmarket]
    refine List.filterMap_eq_nil_iff.2 fun e he => ?_
    obtain ⟨s, -, htold⟩ := List.mem_filterMap.1 he
    dsimp only at htold
    split at htold
    · cases htold
    · cases htold
      exact if_neg fun heq => hmarket (congrArg Lane.market heq).symm

/-! ### What a call tells of lengths -/

/-- The events tell of each length just as it changes between two states of the queue. -/
def TellsLengths (q next : DeleverageQueue) (payloads : List Payload) : Prop :=
  ∀ lane, lengthChanges lane payloads = q.lengthChange next lane

namespace TellsLengths

/-- Nothing is told where nothing changes. -/
theorem aside {payloads : List Payload} (haside : ∀ e ∈ payloads, e.Aside)
    (hsame : queue.rankings = q.rankings) : TellsLengths q queue payloads := by
  intro lane
  rw [lengthChanges_of_aside haside, lengthChange_of_eq (length_eq_of_rankings hsame lane)]

/-- A call that changes lengths in one market tells of that market at its end. -/
theorem posted {events : List Payload} (haside : ∀ e ∈ events, e.Aside)
    (helse : ∀ other, other ≠ market → DeleverageQueue.SameIn other q queue) :
    TellsLengths q queue (events ++ queueChanges q queue market) := by
  intro lane
  rw [lengthChanges_append, lengthChanges_of_aside haside, List.nil_append,
    lengthChanges_queueChanges]
  split
  · rfl
  · rename_i hother
    exact (lengthChange_of_eq ((helse lane.market hother).length rfl)).symm

end TellsLengths

/-- Notices about one market leave the queue as it is in the others. -/
theorem sameIn_of_notices {notices : List Notice}
    (hnotices : ∀ notice ∈ notices, notice.lane.market = market) :
    ∀ other, other ≠ market → DeleverageQueue.SameIn other q (q.notifyAll notices) := by
  intro other hother
  refine .notifyAll q fun notice hnotice => ?_
  rw [hnotices notice hnotice]
  exact hother.symm

variable {h next : House} {call : Call} {reply : Reply}

/-- The events about whom an execution touched tell of no length. -/
theorem aside_of_touched {shortfall : Shortfall} {coverage : Coverage} :
    ∀ e ∈ h.touchedEvents shortfall coverage, e.Aside := by
  intro e he
  obtain ⟨d, -, he⟩ := List.mem_flatMap.1 he
  unfold deleveragedEvents at he
  rcases List.mem_cons.1 he with rfl | he
  · exact fun _ => rfl
  · split at he
    · obtain ⟨p, -, rfl⟩ := List.mem_map.1 he
      exact fun _ => rfl
    · cases he

/-- The events about a settlement tell of no length. -/
theorem aside_of_settled (s : FundingSettlement) : ∀ e ∈ settlementEvents s, e.Aside := by
  intro e he
  rcases List.mem_append.1 he with he | he
  · split at he
    · rw [List.mem_singleton.1 he]
      exact fun _ => rfl
    · cases he
  · obtain ⟨payment, -, rfl⟩ := List.mem_map.1 he
    exact fun _ => rfl

/-- **An accepted call tells of each length just as it changes it.** -/
theorem Acts.tellsLengths (hacts : Acts h call reply next) (hindexed : h.ledger.WellIndexed) :
    ∃ payloads, next.journal = h.journal.recordAll h.now payloads ∧
      TellsLengths h.queue next.queue payloads := by
  cases hacts with
  | supplied => exact ⟨[], rfl, .aside (List.forall_mem_nil _) rfl⟩
  | opened _ posts =>
    refine ⟨_, rfl, .posted (fun e he => ?_) (sameIn_of_notices (Ledger.market_of_opened posts))⟩
    obtain ⟨p, -, rfl⟩ := List.mem_map.1 he
    exact fun _ => rfl
  | modified held _ posts =>
    refine ⟨_, rfl, .posted (fun e he => ?_)
      (sameIn_of_notices (Ledger.market_of_modified held posts))⟩
    obtain ⟨p, -, rfl⟩ := List.mem_map.1 he
    exact fun _ => rfl
  | closed _ _ notices _ =>
    refine ⟨_, rfl, .posted (fun e he => ?_) (sameIn_of_notices ?_)⟩
    · rcases List.mem_cons.1 he with rfl | he
      · exact fun _ => rfl
      · obtain ⟨liquidation, -, rfl⟩ := List.mem_map.1 he
        exact fun _ => rfl
    · rw [notices, List.forall_mem_singleton]
      rfl
  | deleveraged _ executed =>
    refine ⟨_, rfl, .posted (fun e he => ?_) fun other hother =>
      execute_queue_sameIn executed hother.symm⟩
    rcases List.mem_cons.1 he with rfl | he
    · exact fun _ => rfl
    · exact aside_of_touched e he
  | refreshed _ posts =>
    exact ⟨_, rfl, .posted (List.forall_mem_nil _)
      (sameIn_of_notices (Ledger.market_of_refreshed hindexed posts))⟩
  | settled => exact ⟨_, rfl, .aside (aside_of_settled _) rfl⟩
  | margined _ _ told =>
    refine ⟨_, rfl, .aside (fun e he => ?_) rfl⟩
    obtain ⟨update, rfl⟩ := told e he
    exact fun _ => rfl
  | configured _ configures told =>
    refine ⟨_, rfl, .aside (fun e he => ?_) (rankings_configure configures)⟩
    obtain ⟨update, rfl⟩ := told e he
    exact fun _ => rfl
  | toggled _ toggles told =>
    refine ⟨_, rfl, .aside (fun e he => ?_) (rankings_toggle toggles)⟩
    obtain ⟨update, rfl⟩ := told e he
    exact fun _ => rfl
  | funded => exact ⟨[], rfl, .aside (List.forall_mem_nil _) rfl⟩

variable {answered : Except HouseError Reply} {calls : List Call} {ts : List Touch}

theorem emitted_tellsLengths (hindexed : h.ledger.WellIndexed)
    (hperform : InPlace.perform h call = .ok (answered, next)) :
    TellsLengths h.queue next.queue (h.emitted call) := by
  cases answered with
  | error cause =>
    rw [emitted_of_refused hperform, eq_of_refused hperform]
    exact .aside (List.forall_mem_nil _) rfl
  | ok reply =>
    exact emitted_of_acts hperform fun j told hacts => hacts.tellsLengths hindexed

/-! ### Runs -/

theorem Synced.perform (hsynced : h.Synced ts)
    (hperform : InPlace.perform h call = .ok (answered, next)) : ∃ us, next.Synced us := by
  rw [InPlace.perform_eq] at hperform
  rcases orStay_eq_ok.1 hperform with ⟨reply, -, hanswer⟩ | ⟨_, -, -, rfl⟩
  · exact ⟨_, hsynced.moves (answer_moves hanswer)⟩
  · exact ⟨ts, hsynced⟩

/-- What a run tells of a length leads from the length before it to the one after it. -/
theorem leads_run {start : House} (hsynced : start.Synced ts)
    (hrun : InPlace.run start calls = .ok h) (lane : Lane) :
    Leads (start.queue.length lane) (lengthChanges lane (start.emissions calls))
      (h.queue.length lane) := by
  induction calls generalizing start ts with
  | nil =>
    cases hrun
    exact .nil _
  | cons call calls ih =>
    obtain ⟨answered, mid, hperform, hrun⟩ := run_cons_eq_ok hrun
    obtain ⟨us, hmid⟩ := hsynced.perform hperform
    have hrest := ih hmid hrun
    rw [emissions_of_ok hperform, lengthChanges_append,
      emitted_tellsLengths hsynced.indexed hperform lane]
    unfold lengthChange
    by_cases hsame : start.queue.length lane = mid.queue.length lane
    · rw [if_pos hsame, List.nil_append, hsame]
      exact hrest
    · rw [if_neg hsame]
      let change : QueueLengthChanged :=
        ⟨lane.market, lane.side, start.queue.length lane, mid.queue.length lane⟩
      exact Leads.cons (show change.oldLength ≠ change.newLength from hsame) hrest

theorem Founded.length_eq_zero (hfounded : h.Founded) (lane : Lane) : h.queue.length lane = 0 := by
  unfold DeleverageQueue.length ranking
  rw [hfounded.unused.2]
  rfl

/-- **The events tell every length.**  Whatever is asked of a new house, the changes of a length
that the calls emit lead from zero to the length as it is then, each from where the one before it
led; the next call tells of each length just as it changes it; and the journal keeps the end of all
that was emitted. -/
theorem run_lengths {start : House} (hfounded : start.Founded) {calls : List Call}
    (hrun : InPlace.run start calls = .ok h) :
    (∀ lane, Leads 0 (lengthChanges lane (start.emissions calls)) (h.queue.length lane)) ∧
      (∀ call answered next, InPlace.perform h call = .ok (answered, next) → ∀ lane,
        lengthChanges lane (h.emitted call) =
          if h.queue.length lane = next.queue.length lane then []
          else [⟨lane.market, lane.side, h.queue.length lane, next.queue.length lane⟩]) ∧
      h.journal.payloads = (start.emissions calls).rtake start.journal.capacity := by
  refine ⟨fun lane => ?_, fun call answered next hperform lane => ?_, ?_⟩
  · have hleads := leads_run hfounded.synced hrun lane
    rwa [hfounded.length_eq_zero] at hleads
  · have hreached : start.run calls = .ok h := by rw [← InPlace.run_eq, hrun]
    have hindexed := (hfounded.synced.run hreached).indexed
    exact emitted_tellsLengths hindexed hperform lane
  · obtain ⟨capacity, hjournal⟩ := hfounded.journal_eq_empty
    have hnone : start.journal.payloads = [] := by
      rw [hjournal]
      rfl
    have hfits : start.journal.payloads.length ≤ start.journal.capacity := by
      rw [hnone]
      exact Nat.zero_le _
    rw [payloads_run hfits hrun, hnone, List.nil_append]

/-- A house whose journal has room for three events only. -/
def sampleForgetful : House :=
  .empty { Limits.standard with maxEvents := 3 } sampleHouse.roles .empty (.clear 0)

/-- Two longs become candidates and one of them leaves again.  Nine events are emitted, and the
journal has forgotten the first of the two changes. -/
theorem run_lengths_reduced :
    ∃ h, InPlace.run sampleForgetful sampleCalls = .ok h ∧
      (lengthChanges ⟨⟨1⟩, .long⟩ (sampleForgetful.emissions sampleCalls)
          = [⟨⟨1⟩, .long, 0, 2⟩, ⟨⟨1⟩, .long, 2, 1⟩] ∧
        (sampleForgetful.emissions sampleCalls).length = 9) ∧
      Leads 0 (lengthChanges ⟨⟨1⟩, .long⟩ (sampleForgetful.emissions sampleCalls))
        (h.queue.length ⟨⟨1⟩, .long⟩) := by
  obtain ⟨h, hrun, htest⟩ := exists_of_succeedsWith
    (fun _ : House => decide (lengthChanges ⟨⟨1⟩, .long⟩ (sampleForgetful.emissions sampleCalls)
        = [⟨⟨1⟩, .long, 0, 2⟩, ⟨⟨1⟩, .long, 2, 1⟩] ∧
      (sampleForgetful.emissions sampleCalls).length = 9))
    (x := InPlace.run sampleForgetful sampleCalls) (by decide +kernel)
  exact ⟨h, hrun, of_decide_eq_true htest, (run_lengths (.empty _ _ _ _) hrun).1 _⟩

end House

end Clearing

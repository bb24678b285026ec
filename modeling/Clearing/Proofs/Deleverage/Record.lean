import Clearing.Proofs.Deleverage.Arrivals
import Clearing.Proofs.Latest
import Mathlib.Data.List.Chain

/-!
What a queue remembers of its executions.

Executions of all markets are numbered together and forgotten together, while they are counted, and
kept apart in time, market by market.  What must be remembered can be told from outside: it is what
the executions were asked to do and what they answered (`successes`).

Main statement: `run_recorded`.  Whatever else is done to a queue between two executions, the
numbers, the remembered executions, the counts and the times are those of the executions that
succeeded, and two of one market are as far apart as the terms at the later one demand.
-/

namespace Clearing

namespace DeleverageQueue

/-- An execution that succeeded, and the grace period that its market had when it did. -/
structure Success where
  execution : Execution
  gracePeriod : UInt64
deriving DecidableEq

/-- What is to be remembered of an execution that was asked for and answered. -/
def success (q : DeleverageQueue) (shortfall : Shortfall) (now : Instant) (coverage : Coverage) :
    Success where
  execution := {
    id := coverage.execution
    market := shortfall.market
    liquidatedPosition := shortfall.liquidated
    liquidatedSide := shortfall.side
    closedPositions := coverage.deleveraged.map (·.position)
    totalSizeClosed := coverage.totalClosed
    price := shortfall.price
    timestamp := now }
  gracePeriod := ((q.terms? shortfall.market).map (·.gracePeriod)).getD 0

/-- The execution that an operation with this reply was, if it was one that succeeded. -/
def success? (q : DeleverageQueue) :
    Operation → Except DeleverageError Reply → Option Success
  | .execute _ _ shortfall now, .ok (.covered coverage _) =>
    some (q.success shortfall now coverage)
  | _, _ => none

/-- The executions of a run that succeeded, in turn. -/
def successes : DeleverageQueue → List Operation → List Success
  | _, [] => []
  | q, op :: ops =>
    match q.perform op with
    | .ok (reply, next) => (q.success? op reply).toList ++ successes next ops
    | .error _ => []

variable {q next : DeleverageQueue} {maxHistory : Nat} {told : List Success} {s : Success}

/-! ### What one operation remembers -/

/-- Both queues remember the same. -/
structure SameRecord (q next : DeleverageQueue) : Prop where
  history : next.history = q.history
  maxHistory : next.maxHistory = q.maxHistory
  eventCounts : next.eventCounts = q.eventCounts
  lastExecutions : next.lastExecutions = q.lastExecutions
  nextExecution : next.nextExecution = q.nextExecution

namespace SameRecord

theorem refl (q : DeleverageQueue) : SameRecord q q :=
  ⟨rfl, rfl, rfl, rfl, rfl⟩

theorem trans {mid : DeleverageQueue} (h : SameRecord q mid) (h' : SameRecord mid next) :
    SameRecord q next :=
  ⟨h'.history.trans h.history, h'.maxHistory.trans h.maxHistory,
    h'.eventCounts.trans h.eventCounts, h'.lastExecutions.trans h.lastExecutions,
    h'.nextExecution.trans h.nextExecution⟩

theorem remove (q : DeleverageQueue) (lane : Lane) (id : PositionId) :
    SameRecord q (q.remove lane id) := by
  unfold DeleverageQueue.remove
  split
  · exact refl q
  · exact ⟨rfl, rfl, rfl, rfl, rfl⟩

theorem removeAll (q : DeleverageQueue) (lane : Lane) (ids : List PositionId) :
    SameRecord q (ids.foldl (fun q id => q.remove lane id) q) :=
  List.foldlRecOn ids _ (refl q) fun mid hmid id _ => hmid.trans (remove mid lane id)

theorem update (q : DeleverageQueue) (c : Candidate) : SameRecord q (q.update c) := by
  unfold DeleverageQueue.update
  split
  · exact ⟨rfl, rfl, rfl, rfl, rfl⟩
  · exact remove q c.lane c.position

end SameRecord

/-- The later queue remembers one execution more, which had waited for its grace period. -/
structure Remembers (q : DeleverageQueue) (s : Success) (next : DeleverageQueue) : Prop where
  number : s.execution.id = q.nextExecution
  history : next.history = (q.history ++ [s.execution]).rtake q.maxHistory
  maxHistory : next.maxHistory = q.maxHistory
  eventCount : ∀ market, next.eventCount market =
    q.eventCount market + if s.execution.market = market then 1 else 0
  lastExecution : ∀ market, next.lastExecution? market =
    if s.execution.market = market then some s.execution.timestamp else q.lastExecution? market
  nextExecution : next.nextExecution = q.nextExecution + 1
  waited : 0 < s.gracePeriod → ∀ last ∈ q.lastExecution? s.execution.market,
    (last.plusSeconds s.gracePeriod).millis ≤ s.execution.timestamp.millis

theorem permit_waited {shortfall : Shortfall} {now : Instant} {terms : DeleverageTerms}
    (h : q.permit shortfall now = .ok terms) (hgrace : 0 < terms.gracePeriod) :
    ∀ last ∈ q.lastExecution? shortfall.market,
      (last.plusSeconds terms.gracePeriod).millis ≤ now.millis := by
  intro last hlast
  unfold permit at h
  simp only [bind_eq_ok, ite_throw_eq_ok, pure_eq_ok] at h
  obtain ⟨found, -, -, _, hready, rfl⟩ := h
  unfold requireGrace at hready
  rw [Option.mem_def.1 hlast] at hready
  dsimp only at hready
  split at hready
  · cases hready
  · rename_i hnot
    exact Int64.not_lt.1 fun hearly => hnot ⟨hgrace, hearly⟩

theorem execute_remembers {l ledger : Ledger} {schedule : MarginSchedule} {shortfall : Shortfall}
    {now : Instant} {coverage : Coverage}
    (h : q.execute l schedule shortfall now = .ok (coverage, next, ledger)) :
    Remembers q (q.success shortfall now coverage) next := by
  unfold execute at h
  simp only [bind_eq_ok, refusing_eq_ok, ite_refuse_eq_ok, pure_eq_ok, Prod.mk.injEq] at h
  obtain ⟨terms, hpermit, -, walk, -, rfl, rfl, -⟩ := h
  have hleft := SameRecord.removeAll q shortfall.lane
    (walk.deleveraged.map (·.position) ++ (q.stale l shortfall.lane).map (·.position))
  refine ⟨rfl, ?_, hleft.maxHistory, fun market => ?_, fun market => ?_, rfl, ?_⟩
  · show List.rtake _ _ = _
    rw [hleft.history, hleft.maxHistory]
    rfl
  · show (Table.get? (Table.insert _ shortfall.market _) market).getD 0
      = q.eventCount market + if shortfall.market = market then 1 else 0
    rw [Table.get?_insert_eq, hleft.eventCounts]
    by_cases hmarket : market = shortfall.market
    · rw [if_pos hmarket, hmarket, if_pos rfl]
      rfl
    · rw [if_neg hmarket, if_neg (Ne.symm hmarket)]
      rfl
  · show Table.get? (Table.insert _ shortfall.market now) market
      = if shortfall.market = market then some now else q.lastExecution? market
    rw [Table.get?_insert_eq, hleft.lastExecutions]
    by_cases hmarket : market = shortfall.market
    · rw [if_pos hmarket, hmarket, if_pos rfl]
    · rw [if_neg hmarket, if_neg (Ne.symm hmarket)]
      rfl
  · have hperiod : (q.success shortfall now
        ⟨q.nextExecution, decide (shortfall.size ≤ walk.closed), walk.closed,
          walk.deleveraged⟩).gracePeriod = terms.gracePeriod := by
      show ((q.terms? shortfall.market).map (·.gracePeriod)).getD 0 = _
      rw [(permit_eq_ok hpermit).1]
      rfl
    rw [hperiod]
    exact permit_waited hpermit

/-- Whatever an operation remembers is an execution that succeeded. -/
theorem perform_remembers {op : Operation} {reply : Except DeleverageError Reply}
    (hperform : q.perform op = .ok (reply, next)) :
    (q.success? op reply = none ∧ SameRecord q next) ∨
      ∃ s, q.success? op reply = some s ∧ Remembers q s next := by
  rcases orStay_eq_ok.1 hperform with ⟨r, rfl, hanswer⟩ | ⟨cause, rfl, -, rfl⟩
  · cases op with
    | configure market terms =>
      simp only [answer, bind_eq_ok, refusing_eq_ok, pure_eq_ok, Prod.mk.injEq] at hanswer
      obtain ⟨⟨earlier, configured⟩, hconfigure, -, rfl⟩ := hanswer
      obtain ⟨-, rfl⟩ := configure_eq_ok hconfigure
      exact .inl ⟨rfl, rfl, rfl, rfl, rfl, rfl⟩
    | toggle market =>
      simp only [answer, bind_eq_ok, refusing_eq_ok, pure_eq_ok, Prod.mk.injEq] at hanswer
      obtain ⟨⟨active, toggled⟩, htoggle, -, rfl⟩ := hanswer
      obtain ⟨terms, -, rfl⟩ := toggle_eq_ok htoggle
      exact .inl ⟨rfl, rfl, rfl, rfl, rfl, rfl⟩
    | update c =>
      cases hanswer
      exact .inl ⟨rfl, .update q c⟩
    | remove lane id =>
      cases hanswer
      exact .inl ⟨rfl, .remove q lane id⟩
    | execute ledger schedule shortfall now =>
      simp only [answer, bind_eq_ok, pure_eq_ok, Prod.mk.injEq] at hanswer
      obtain ⟨⟨coverage, _, walked⟩, hx, rfl, rfl⟩ := hanswer
      exact .inr ⟨_, rfl, execute_remembers hx⟩
  · cases op <;> exact .inl ⟨rfl, .refl _⟩

/-! ### What a run remembers -/

/-- The executions that succeeded in one market. -/
def successesIn (market : MarketId) (told : List Success) : List Success :=
  told.filter (·.execution.market = market)

/-- What a queue that remembers so many executions knows after those that succeeded. -/
structure Recorded (maxHistory : Nat) (told : List Success) (q : DeleverageQueue) : Prop where
  capacity : q.maxHistory = maxHistory
  nextExecution : q.nextExecution = told.length + 1
  ids : told.map (·.execution.id) = List.range' 1 told.length
  history : q.history = (told.map (·.execution)).rtake maxHistory
  eventCount : ∀ market, q.eventCount market = (successesIn market told).length
  lastExecution : ∀ market, q.lastExecution? market
    = (successesIn market told).getLast?.map (·.execution.timestamp)
  spaced : ∀ market, (successesIn market told).IsChain fun earlier later =>
    0 < later.gracePeriod →
      (earlier.execution.timestamp.plusSeconds later.gracePeriod).millis
        ≤ later.execution.timestamp.millis

theorem successesIn_append_of_eq {market : MarketId} (hmarket : s.execution.market = market) :
    successesIn market (told ++ [s]) = successesIn market told ++ [s] := by
  unfold successesIn
  rw [List.filter_append, List.filter_singleton, decide_eq_true hmarket]
  rfl

theorem successesIn_append_of_ne {market : MarketId} (hmarket : s.execution.market ≠ market) :
    successesIn market (told ++ [s]) = successesIn market told := by
  unfold successesIn
  rw [List.filter_append, List.filter_singleton, decide_eq_false hmarket]
  exact List.append_nil _

namespace Recorded

theorem empty (maxHistory : Nat) : Recorded maxHistory [] (.empty maxHistory) where
  capacity := rfl
  nextExecution := rfl
  ids := rfl
  history := (List.rtake_nil maxHistory).symm
  eventCount _ := rfl
  lastExecution _ := rfl
  spaced _ := .nil

theorem same (h : Recorded maxHistory told q) (hsame : SameRecord q next) :
    Recorded maxHistory told next where
  capacity := hsame.maxHistory.trans h.capacity
  nextExecution := hsame.nextExecution.trans h.nextExecution
  ids := h.ids
  history := hsame.history.trans h.history
  eventCount market := by
    rw [← h.eventCount market]
    unfold DeleverageQueue.eventCount
    rw [hsame.eventCounts]
  lastExecution market := by
    rw [← h.lastExecution market]
    unfold lastExecution?
    rw [hsame.lastExecutions]
  spaced := h.spaced

theorem remember (h : Recorded maxHistory told q) (hs : Remembers q s next) :
    Recorded maxHistory (told ++ [s]) next where
  capacity := hs.maxHistory.trans h.capacity
  nextExecution := by
    rw [hs.nextExecution, h.nextExecution, List.length_append, List.length_singleton]
  ids := by
    rw [List.map_append, h.ids, List.length_append, List.length_singleton, List.range'_1_concat,
      List.map_singleton, hs.number, h.nextExecution, Nat.add_comm]
  history := by
    rw [hs.history, h.history, h.capacity, rtake_rtake_append, List.map_append, List.map_singleton]
  eventCount market := by
    rw [hs.eventCount, h.eventCount]
    by_cases hmarket : s.execution.market = market
    · rw [if_pos hmarket, successesIn_append_of_eq hmarket, List.length_append,
        List.length_singleton]
    · rw [if_neg hmarket, successesIn_append_of_ne hmarket, Nat.add_zero]
  lastExecution market := by
    rw [hs.lastExecution]
    by_cases hmarket : s.execution.market = market
    · rw [if_pos hmarket, successesIn_append_of_eq hmarket, List.getLast?_concat, Option.map_some]
    · rw [if_neg hmarket, successesIn_append_of_ne hmarket, h.lastExecution]
  spaced market := by
    by_cases hmarket : s.execution.market = market
    · rw [successesIn_append_of_eq hmarket]
      refine List.isChain_append.2 ⟨h.spaced market, .singleton s, ?_⟩
      -- The one before it in this market is the one whose time the queue has kept.
      rintro earlier hearlier later hlater hgrace
      cases hlater
      refine hs.waited hgrace earlier.execution.timestamp ?_
      rw [hmarket, h.lastExecution, Option.mem_def.1 hearlier]
      rfl
    · rw [successesIn_append_of_ne hmarket]
      exact h.spaced market

theorem run (h : Recorded maxHistory told q) {ops : List Operation}
    {replies : List (Except DeleverageError Reply)} {last : DeleverageQueue}
    (hrun : q.run ops = .ok (replies, last)) :
    Recorded maxHistory (told ++ q.successes ops) last := by
  induction ops generalizing q told replies with
  | nil =>
    cases hrun
    rw [successes, List.append_nil]
    exact h
  | cons op ops ih =>
    obtain ⟨reply, mid, rest, hperform, hrest, -⟩ := inTurn_cons_eq_ok.1 hrun
    rw [successes, hperform]
    dsimp only
    rw [← List.append_assoc]
    refine ih ?_ hrest
    rcases perform_remembers hperform with ⟨hnone, hsame⟩ | ⟨s, hsome, hs⟩
    · rw [hnone, Option.toList_none, List.append_nil]
      exact h.same hsame
    · rw [hsome]
      exact h.remember hs

/-- Executions are numbered by their places. -/
theorem id_of_getElem? (h : Recorded maxHistory told q) {i : Nat} {e : Execution}
    (hi : (told.map (·.execution))[i]? = some e) : e.id = i + 1 := by
  have hid : (told.map (·.execution.id))[i]? = some e.id := by
    rw [List.getElem?_map] at hi ⊢
    obtain ⟨s, hs, rfl⟩ := Option.map_eq_some_iff.1 hi
    rw [hs]
    rfl
  rw [h.ids] at hid
  obtain ⟨hlt, hnumber⟩ := List.getElem?_eq_some_iff.1 hid
  rw [List.getElem_range'] at hnumber
  omega

/-- An execution is found by its number just where it is one of the latest. -/
theorem execution?_eq_some_iff (h : Recorded maxHistory told q) (id : Nat) (e : Execution) :
    q.execution? id = some e ↔
      0 < id ∧ told.length < id + maxHistory ∧ (told.map (·.execution))[id - 1]? = some e := by
  have hplace : ∀ found ∈ q.history, ∃ i, told.length ≤ i + maxHistory ∧
      (told.map (·.execution))[i]? = some found ∧ found.id = i + 1 := by
    intro found hfound
    rw [h.history, mem_rtake_iff, List.length_map] at hfound
    obtain ⟨i, hnear, hi⟩ := hfound
    exact ⟨i, hnear, hi, h.id_of_getElem? hi⟩
  unfold execution?
  constructor
  · intro hfind
    obtain ⟨i, hnear, hi, hid⟩ := hplace e (List.mem_of_find?_eq_some hfind)
    have htest := List.find?_some hfind
    have hsame : e.id = id := of_decide_eq_true htest
    obtain rfl : id = i + 1 := hsame.symm.trans hid
    exact ⟨Nat.succ_pos i, by omega, hi⟩
  · rintro ⟨hpos, hnear, hi⟩
    have hid : e.id = id := by
      rw [h.id_of_getElem? hi]
      omega
    have hkept : e ∈ q.history := by
      rw [h.history, mem_rtake_iff, List.length_map]
      exact ⟨id - 1, by omega, hi⟩
    have hsome : (q.history.find? (·.id = id)).isSome = true :=
      List.find?_isSome.2 ⟨e, hkept, decide_eq_true hid⟩
    obtain ⟨found, hfound⟩ := Option.isSome_iff_exists.1 hsome
    -- Whatever is found under the number has the same place.
    obtain ⟨i, -, hplaced, hfoundId⟩ := hplace found (List.mem_of_find?_eq_some hfound)
    have htest := List.find?_some hfound
    have hsame : found.id = id := of_decide_eq_true htest
    obtain rfl : i = id - 1 := by omega
    rw [hfound]
    exact hplaced.symm.trans hi

end Recorded

/-- **What a queue remembers.**  After any run the executions that succeeded are numbered from one
in their order; the latest of them, up to the capacity, are remembered just as they were, and only
these are found by their numbers; each market has as many as it saw, and the time of its latest; and
two that follow each other in a market are as far apart as its grace period at the later one. -/
theorem run_recorded {maxHistory : Nat} {ops : List Operation}
    {replies : List (Except DeleverageError Reply)}
    (hrun : (empty maxHistory).run ops = .ok (replies, q)) :
    Recorded maxHistory ((empty maxHistory).successes ops) q ∧
      ∀ id e, q.execution? id = some e ↔
        0 < id ∧ ((empty maxHistory).successes ops).length < id + maxHistory ∧
          (((empty maxHistory).successes ops).map (·.execution))[id - 1]? = some e := by
  have hrecorded := (Recorded.empty maxHistory).run hrun
  exact ⟨hrecorded, hrecorded.execution?_eq_some_iff⟩

/-- Two markets on the same terms. -/
def sampleMarkets : MarginSchedule :=
  ⟨(Table.empty.insert ⟨1⟩ .standard).insert ⟨2⟩ .standard⟩

/-- Two longs are open in one market, and one in the other. -/
def sampleLongs : Ledger :=
  (((Ledger.startingAt 1).run
    [.openPosition (Ledger.sampleOrder ⟨1⟩ .long .one) sampleMarkets .epoch,
      .openPosition (Ledger.sampleOrder ⟨2⟩ .long .one) sampleMarkets .epoch,
      .openPosition { Ledger.sampleOrder ⟨3⟩ .long .one with market := ⟨2⟩ } sampleMarkets
        .epoch]).map (·.2)).toOption.getD .empty

/-- An execution for a short of size one in a market, at this time. -/
def sampleExecute (market : MarketId) (now : Instant) : Operation :=
  .execute sampleLongs sampleMarkets ⟨market, ⟨9⟩, .short, .one, .ofUInt32 100⟩ now

/-- An execution comes too early after the first one; one in the other market does not, and one
just in time is asked for once its market was switched off and on again. -/
def sampleSpaced : List Operation :=
  [.configure ⟨1⟩ { DeleverageTerms.standard with gracePeriod := 10 },
    .configure ⟨2⟩ .standard,
    .update (sampleCandidate 1 .one),
    .update (sampleCandidate 2 .one),
    .update { sampleCandidate 3 .one with market := ⟨2⟩ },
    sampleExecute ⟨1⟩ .epoch,
    sampleExecute ⟨1⟩ ⟨9999⟩,
    sampleExecute ⟨2⟩ ⟨9999⟩,
    .toggle ⟨1⟩,
    sampleExecute ⟨1⟩ ⟨10000⟩,
    .toggle ⟨1⟩,
    sampleExecute ⟨1⟩ ⟨10000⟩]

/-- Three executions succeed, and the first is forgotten but still counted. -/
theorem run_recorded_spaced :
    ∃ replies q, (empty 2).run sampleSpaced = .ok (replies, q) ∧
      (replies[6]? = some (.error (.gracePeriod ⟨1⟩ 1)) ∧
        replies[9]? = some (.error (.notEnabled ⟨1⟩)) ∧
        ((empty 2).successes sampleSpaced).map (·.execution.timestamp)
          = [.epoch, ⟨9999⟩, ⟨10000⟩] ∧
        q.history.map (·.id) = [2, 3] ∧ q.eventCount ⟨1⟩ = 2) ∧
      Recorded 2 ((empty 2).successes sampleSpaced) q := by
  obtain ⟨⟨replies, q⟩, hrun, htest⟩ := exists_of_succeedsWith
    (fun r : List (Except DeleverageError Reply) × DeleverageQueue =>
      r.1[6]? = some (.error (.gracePeriod ⟨1⟩ 1)) ∧
        r.1[9]? = some (.error (.notEnabled ⟨1⟩)) ∧
        ((empty 2).successes sampleSpaced).map (·.execution.timestamp)
          = [.epoch, ⟨9999⟩, ⟨10000⟩] ∧
        r.2.history.map (·.id) = [2, 3] ∧ r.2.eventCount ⟨1⟩ = 2)
    (x := (empty 2).run sampleSpaced) (by decide +kernel)
  exact ⟨replies, q, hrun, of_decide_eq_true htest, (run_recorded hrun).1⟩

end DeleverageQueue

end Clearing

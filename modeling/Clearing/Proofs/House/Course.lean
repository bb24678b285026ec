import Clearing.Proofs.Event.Journal
import Clearing.Proofs.House.Calls
import Clearing.Proofs.InPlace.House

/-!
Runs call by call, and what each call emits.

A run is followed from one moment to the next: the house, the call, and what came of it.  Calls are
made in place, where a refused call could leave something behind.

The journal of a house may be too small for what is written into it.  No call looks into the
journal (`perform_keeping`), so what a call emits can be read off a journal with room for all of it,
whatever the journal of the house still holds (`emitted`).
-/

namespace Clearing

namespace House

/-- A moment of a run: the house before a call, the call, and what came of it. -/
structure Moment where
  house : House
  call : Call
  outcome : Except Stop (Except HouseError Reply × House)
deriving DecidableEq

/-- The moments of a run, up to the first call that stops. -/
def course : House → List Call → List Moment
  | _, [] => []
  | h, call :: calls =>
    ⟨h, call, InPlace.perform h call⟩ ::
      match InPlace.perform h call with
      | .ok (_, next) => course next calls
      | .error _ => []

/-- The house with another journal. -/
def keeping (h : House) (j : Journal) : House :=
  { h with journal := j }

/-- What a call emits: what it writes into a journal that is empty and has room for as many events
as the call numbers. -/
def emitted (h : House) (call : Call) : List Payload :=
  match InPlace.perform h call with
  | .ok (_, next) =>
    match InPlace.perform (h.keeping (.empty (next.journal.nextId - h.journal.nextId))) call with
    | .ok (_, told) => told.journal.payloads
    | .error _ => []
  | .error _ => []

/-- What the calls of a run emit, in turn. -/
def emissions (h : House) (calls : List Call) : List Payload :=
  (h.course calls).flatMap fun m => m.house.emitted m.call

/-- The events of a call, with their numbers and times: what it writes into a journal that is empty,
goes on with the numbers of the house, and has room for as many events as the call numbers. -/
def written (h : House) (call : Call) : List Event :=
  match InPlace.perform h call with
  | .ok (_, next) =>
    let room := next.journal.nextId - h.journal.nextId
    match InPlace.perform (h.keeping ⟨[], h.journal.nextId, room⟩) call with
    | .ok (_, told) => told.journal.events
    | .error _ => []
  | .error _ => []

/-- The events of the calls of a run, in turn. -/
def writings (h : House) (calls : List Call) : List Event :=
  (h.course calls).flatMap fun m => m.house.written m.call

variable {h next : House} {call : Call} {calls : List Call} {α β : Type}
  {answered : Except HouseError Reply}

/-! ### Moments -/

theorem course_of_ok (hperform : InPlace.perform h call = .ok (answered, next)) :
    h.course (call :: calls) = ⟨h, call, .ok (answered, next)⟩ :: next.course calls := by
  rw [course, hperform]

theorem course_of_stop {s : Stop} (hperform : InPlace.perform h call = .error s) :
    h.course (call :: calls) = [⟨h, call, .error s⟩] := by
  rw [course, hperform]

theorem run_cons_of_ok (hperform : InPlace.perform h call = .ok (answered, next)) :
    InPlace.run h (call :: calls) = InPlace.run next calls := by
  unfold InPlace.run
  rw [List.foldlM_cons, hperform]
  rfl

/-- Every moment of a run is one call made in place. -/
theorem outcome_of_mem_course {m : Moment} (hm : m ∈ h.course calls) :
    m.outcome = InPlace.perform m.house m.call := by
  induction calls generalizing h with
  | nil => cases hm
  | cons call calls ih =>
    cases hperform : InPlace.perform h call with
    | error s =>
      rw [course_of_stop hperform, List.mem_singleton] at hm
      rw [hm, hperform]
    | ok result =>
      rw [course_of_ok hperform] at hm
      rcases List.mem_cons.1 hm with rfl | hm
      · exact hperform.symm
      · exact ih hm

/-- A run that comes to an end has made its first call, and gone on from there. -/
theorem run_cons_eq_ok {last : House} (hrun : InPlace.run h (call :: calls) = .ok last) :
    ∃ answered next, InPlace.perform h call = .ok (answered, next) ∧
      InPlace.run next calls = .ok last := by
  cases hperform : InPlace.perform h call with
  | error s =>
    unfold InPlace.run at hrun
    rw [List.foldlM_cons, hperform] at hrun
    cases hrun
  | ok result =>
    rw [run_cons_of_ok hperform] at hrun
    exact ⟨_, _, rfl, hrun⟩

theorem emissions_of_ok (hperform : InPlace.perform h call = .ok (answered, next)) :
    h.emissions (call :: calls) = h.emitted call ++ next.emissions calls := by
  unfold emissions
  rw [course_of_ok hperform, List.flatMap_cons]

theorem writings_of_ok (hperform : InPlace.perform h call = .ok (answered, next)) :
    h.writings (call :: calls) = h.written call ++ next.writings calls := by
  unfold writings
  rw [course_of_ok hperform, List.flatMap_cons]

/-! ### Answered and refused -/

theorem acts_of_perform {reply : Reply} (hperform : h.perform call = .ok (.ok reply, next)) :
    Acts h call reply next := by
  rcases orStay_eq_ok.1 hperform with ⟨_, hreply, hanswer⟩ | ⟨_, hreply, -⟩
  · cases hreply
    exact answer_acts hanswer
  · cases hreply

/-- A call that is refused leaves nothing behind. -/
theorem eq_of_refused {cause : HouseError}
    (hperform : InPlace.perform h call = .ok (.error cause, next)) : next = h := by
  rw [InPlace.perform_eq] at hperform
  rcases orStay_eq_ok.1 hperform with ⟨_, hreply, -⟩ | ⟨_, -, -, hsame⟩
  · cases hreply
  · exact hsame

/-! ### Calls do not look into the journal -/

/-- What is tried on a house with any journal does not look into it, and writes the same events into
each. -/
def Reports (h : House) (x : Journal → Attempt (α × House)) : Prop :=
  ∃ y : Attempt (α × House × List Payload), ∀ j,
    x j = y.map fun (a, next, payloads) => (a, next.keeping (j.recordAll h.now payloads))

namespace Reports

theorem bind {x : Journal → Attempt β} {f : β → Journal → Attempt (α × House)}
    (hx : ∀ i j, x i = x j) (hf : ∀ b, Reports h (f b)) :
    Reports h fun j => x j >>= fun b => f b j := by
  choose y hy using hf
  refine ⟨x h.journal >>= y, fun j => ?_⟩
  dsimp only
  rw [hx j h.journal]
  cases x h.journal with
  | error e => rfl
  | ok b => exact hy b j

/-- Events are written once the rest is in place. -/
theorem record {a : Journal → α} {payloads : Journal → List Payload} (next : House)
    (hnow : next.now = h.now) (ha : ∀ i j, a i = a j) (hpayloads : ∀ i j, payloads i = payloads j) :
    Reports h fun j => .ok (a j, (next.keeping j).record (payloads j)) := by
  refine ⟨.ok (a h.journal, next, payloads h.journal), fun j => ?_⟩
  dsimp only
  rw [ha j h.journal, hpayloads j h.journal, ← hnow]
  rfl

theorem post {γ : Type} {a : Journal → α} {market : MarketId} {posted : Ledger.Posted γ}
    {events : Journal → List Payload} (ha : ∀ i j, a i = a j)
    (hevents : ∀ i j, events i = events j) :
    Reports h fun j => .ok (a j, (h.keeping j).post market posted (events j)) := by
  let posting : House :=
    { h with ledger := posted.ledger, queue := h.queue.notifyAll posted.notices }
  show Reports h fun j => .ok (a j,
    (posting.keeping j).record (events j ++ queueChanges h.queue posting.queue market))
  refine record posting rfl ha fun i j => ?_
  rw [hevents i j]

theorem silent {a : Journal → α} (next : House) (hnow : next.now = h.now)
    (ha : ∀ i j, a i = a j) : Reports h fun j => .ok (a j, next.keeping j) := by
  show Reports h fun j => .ok (a j, (next.keeping j).record [])
  exact record next hnow ha fun _ _ => rfl

theorem giving {x : Journal → Attempt (α × House)} (hx : Reports h x) (reply : α → Reply) :
    Reports h fun j => answer.giving reply (x j) := by
  obtain ⟨y, hy⟩ := hx
  refine ⟨y.map fun (a, rest) => (reply a, rest), fun j => ?_⟩
  dsimp only
  rw [hy]
  cases y with
  | error e => rfl
  | ok r => rfl

end Reports

variable {caller : AccountId}

theorem openPosition_reports (order : Order) :
    Reports h fun j => (h.keeping j).openPosition caller order := by
  unfold openPosition
  refine .bind (fun _ _ => rfl) fun _ => .bind (fun _ _ => rfl) fun _ => ?_
  exact .bind (fun _ _ => rfl) fun posted => .post (fun _ _ => rfl) fun _ _ => rfl

theorem modifyPosition_reports (id : PositionId) (sizeDelta : Decimal) (collateralDelta : Amount) :
    Reports h fun j => (h.keeping j).modifyPosition caller id sizeDelta collateralDelta := by
  unfold modifyPosition
  refine .bind (fun _ _ => rfl) fun _ => .bind (fun _ _ => rfl) fun before => ?_
  refine .bind (fun _ _ => rfl) fun _ => .bind (fun _ _ => rfl) fun price => ?_
  exact .bind (fun _ _ => rfl) fun posted => .post (fun _ _ => rfl) fun _ _ => rfl

theorem closePosition_reports (id : PositionId) :
    Reports h fun j => (h.keeping j).closePosition caller id := by
  unfold closePosition
  refine .bind (fun _ _ => rfl) fun _ => .bind (fun _ _ => rfl) fun p => ?_
  refine .bind (fun _ _ => rfl) fun _ => .bind (fun _ _ => rfl) fun price => ?_
  exact .bind (fun _ _ => rfl) fun posted => .post (fun _ _ => rfl) fun _ _ => rfl

theorem forceClose_reports (id : PositionId) (price : Price) (isLiquidation : Bool) :
    Reports h fun j => (h.keeping j).forceClose caller id price isLiquidation := by
  unfold forceClose
  refine .bind (fun _ _ => rfl) fun _ => .bind (fun _ _ => rfl) fun p => ?_
  refine .bind (fun _ _ => rfl) fun _ => .bind (fun _ _ => rfl) fun posted => ?_
  exact .post (fun _ _ => rfl) fun _ _ => rfl

theorem executeDeleverage_reports (shortfall : Shortfall) :
    Reports h fun j => (h.keeping j).executeDeleverage caller shortfall := by
  unfold executeDeleverage
  refine .bind (fun _ _ => rfl) fun _ => .bind (fun _ _ => rfl) fun _ => ?_
  refine .bind (fun _ _ => rfl) fun (coverage, queue, ledger) => ?_
  exact .record { h with ledger := ledger, queue := queue } rfl (fun _ _ => rfl) fun _ _ => rfl

theorem refreshMarket_reports (market : MarketId) :
    Reports h fun j => (h.keeping j).refreshMarket caller market := by
  unfold refreshMarket
  refine .bind (fun _ _ => rfl) fun _ => .bind (fun _ _ => rfl) fun _ => ?_
  refine .bind (fun _ _ => rfl) fun price => .bind (fun _ _ => rfl) fun posted => ?_
  exact .post (fun _ _ => rfl) fun _ _ => rfl

theorem settleFunding_reports (market : MarketId) :
    Reports h fun j => (h.keeping j).settleFunding caller market := by
  unfold settleFunding
  refine .bind (fun _ _ => rfl) fun _ => .bind (fun _ _ => rfl) fun _ => ?_
  refine .bind (fun _ _ => rfl) fun (settlement, funding, ledger) => ?_
  exact .record { h with ledger := ledger, funding := funding } rfl (fun _ _ => rfl) fun _ _ => rfl

theorem configureMargin_reports (market : MarketId) (tier : MarginTier) :
    Reports h fun j => (h.keeping j).configureMargin caller market tier := by
  unfold configureMargin
  refine .bind (fun _ _ => rfl) fun _ => .bind (fun _ _ => rfl) fun (previous, schedule) => ?_
  exact .record { h with schedule := schedule } rfl (fun _ _ => rfl) fun _ _ => rfl

theorem setMarketActive_reports (market : MarketId) (active : Bool) :
    Reports h fun j => (h.keeping j).setMarketActive caller market active := by
  unfold setMarketActive
  refine .bind (fun _ _ => rfl) fun _ => .bind (fun _ _ => rfl) fun schedule => ?_
  exact .record { h with schedule := schedule } rfl (fun _ _ => rfl) fun _ _ => rfl

theorem configureDeleverage_reports (market : MarketId) (insuranceThreshold : Bps)
    (maxPositions : UInt32) (gracePeriod : UInt64) :
    Reports h fun j => (h.keeping j).configureDeleverage caller market insuranceThreshold
      maxPositions gracePeriod := by
  unfold configureDeleverage
  refine .bind (fun _ _ => rfl) fun _ => .bind (fun _ _ => rfl) fun (previous, queue) => ?_
  exact .record { h with queue := queue } rfl (fun _ _ => rfl) fun _ _ => rfl

theorem toggleDeleverage_reports (market : MarketId) :
    Reports h fun j => (h.keeping j).toggleDeleverage caller market := by
  unfold toggleDeleverage
  refine .bind (fun _ _ => rfl) fun _ => .bind (fun _ _ => rfl) fun (active, queue) => ?_
  exact .record { h with queue := queue } rfl (fun _ _ => rfl) fun _ _ => rfl

theorem configureFunding_reports (market : MarketId) (terms : FundingTerms) :
    Reports h fun j => (h.keeping j).configureFunding caller market terms := by
  unfold configureFunding
  refine .bind (fun _ _ => rfl) fun _ => .bind (fun _ _ => rfl) fun (previous, funding) => ?_
  exact .silent { h with funding := funding } rfl fun _ _ => rfl

/-- **No call looks into the journal.** -/
theorem answer_reports (h : House) (call : Call) :
    Reports h fun j => (h.keeping j).answer call := by
  cases call with
  | setTime now => exact ⟨.ok (.done, h.setTime now, []), fun _ => rfl⟩
  | advanceTime millis => exact ⟨.ok (.done, h.advanceTime millis, []), fun _ => rfl⟩
  | replaceRoles roles => exact ⟨.ok (.done, { h with roles := roles }, []), fun _ => rfl⟩
  | replacePrices prices => exact ⟨.ok (.done, { h with prices := prices }, []), fun _ => rfl⟩
  | replaceSafeguards safeguards =>
    exact ⟨.ok (.done, { h with safeguards := safeguards }, []), fun _ => rfl⟩
  | openPosition caller order => exact (openPosition_reports order).giving _
  | modifyPosition caller id sizeDelta collateralDelta =>
    exact (modifyPosition_reports id sizeDelta collateralDelta).giving _
  | closePosition caller id => exact (closePosition_reports id).giving _
  | forceClose caller id price isLiquidation =>
    exact (forceClose_reports id price isLiquidation).giving _
  | executeDeleverage caller shortfall => exact (executeDeleverage_reports shortfall).giving _
  | refreshMarket caller market => exact (refreshMarket_reports market).giving _
  | settleFunding caller market => exact (settleFunding_reports market).giving _
  | configureMargin caller market tier =>
    exact (configureMargin_reports market tier).giving fun _ => .done
  | setMarketActive caller market active =>
    exact (setMarketActive_reports market active).giving fun _ => .done
  | configureDeleverage caller market insuranceThreshold maxPositions gracePeriod =>
    exact (configureDeleverage_reports market insuranceThreshold maxPositions gracePeriod).giving
      fun _ => .done
  | toggleDeleverage caller market => exact (toggleDeleverage_reports market).giving _
  | configureFunding caller market terms =>
    exact (configureFunding_reports market terms).giving fun _ => .done

/-! ### What a call emits -/

/-- With another journal a call comes out the same, and writes the same. -/
theorem perform_keeping (h : House) (call : Call) : ∃ payloads, ∀ j,
    InPlace.perform (h.keeping j) call = (InPlace.perform h call).map fun (answered, next) =>
      (answered, next.keeping (j.recordAll h.now payloads)) := by
  obtain ⟨y, hy⟩ := answer_reports h call
  have hany : ∀ j, (h.keeping j).answer call = _ := hy
  have hown : h.answer call = _ := hy h.journal
  cases y with
  | ok r =>
    refine ⟨r.2.2, fun j => ?_⟩
    rw [InPlace.perform_eq, InPlace.perform_eq]
    unfold perform
    rw [hany j, hown]
    rfl
  | error e =>
    refine ⟨[], fun j => ?_⟩
    rw [InPlace.perform_eq, InPlace.perform_eq]
    unfold perform
    rw [hany j, hown]
    cases e with
    | refused cause => rfl
    | stopped s => rfl

theorem eq_keeping_of_perform {other : House} {j : Journal}
    (hperform : InPlace.perform h call = .ok (answered, next))
    (hkeeping : InPlace.perform (h.keeping h.journal) call = .ok (answered, other.keeping j)) :
    next = other.keeping j :=
  congrArg Prod.snd (Except.ok.inj (hperform.symm.trans hkeeping))

/-- A call writes what it emits, into whatever journal it finds. -/
theorem perform_emitted (hperform : InPlace.perform h call = .ok (answered, next)) (j : Journal) :
    InPlace.perform (h.keeping j) call
      = .ok (answered, next.keeping (j.recordAll h.now (h.emitted call))) := by
  obtain ⟨payloads, hany⟩ := perform_keeping h call
  rw [hperform] at hany
  have hjournal : next.journal = h.journal.recordAll h.now payloads :=
    congrArg House.journal (eq_keeping_of_perform hperform (hany h.journal))
  have hemitted : h.emitted call = payloads := by
    unfold emitted
    rw [hperform]
    dsimp only
    rw [hany, hjournal, Journal.nextId_recordAll, Nat.add_sub_cancel_left]
    exact Journal.payloads_recordAll_empty h.now payloads
  rw [hany, hemitted]
  rfl

theorem journal_eq_of_perform (hperform : InPlace.perform h call = .ok (answered, next)) :
    next.journal = h.journal.recordAll h.now (h.emitted call) :=
  congrArg House.journal (eq_keeping_of_perform hperform (perform_emitted hperform h.journal))

/-- What can be said of the events of a call, whatever journal they are written into, can be said of
what the call emits. -/
theorem emitted_of_acts {reply : Reply} {P : List Payload → Prop}
    (hperform : InPlace.perform h call = .ok (.ok reply, next))
    (hacts : ∀ j told, Acts (h.keeping j) call reply (next.keeping told) →
      ∃ payloads, told = j.recordAll h.now payloads ∧ P payloads) : P (h.emitted call) := by
  have hroom := perform_emitted hperform (.empty (h.emitted call).length)
  rw [InPlace.perform_eq] at hroom
  obtain ⟨payloads, htold, hP⟩ := hacts _ _ (acts_of_perform hroom)
  have hlength : (h.emitted call).length = payloads.length := by
    have hnumbers := congrArg Journal.nextId htold
    rw [Journal.nextId_recordAll, Journal.nextId_recordAll] at hnumbers
    exact Nat.add_left_cancel hnumbers
  have hsame := congrArg Journal.payloads htold
  rw [Journal.payloads_recordAll_empty, hlength, Journal.payloads_recordAll_empty] at hsame
  rw [hsame]
  exact hP

/-- A call that is refused emits nothing. -/
theorem emitted_of_refused {cause : HouseError}
    (hperform : InPlace.perform h call = .ok (.error cause, next)) : h.emitted call = [] := by
  have hnumbers := congrArg Journal.nextId (journal_eq_of_perform hperform)
  rw [eq_of_refused hperform, Journal.nextId_recordAll] at hnumbers
  exact List.eq_nil_of_length_eq_zero (by omega)

/-! ### What a call writes -/

/-- A call writes what it emits, under the next numbers and at its time. -/
theorem written_eq (hperform : InPlace.perform h call = .ok (answered, next)) :
    h.written call = Journal.stamped h.journal.nextId h.now (h.emitted call) := by
  unfold written
  rw [hperform]
  dsimp only
  rw [perform_emitted hperform, journal_eq_of_perform hperform, Journal.nextId_recordAll,
    Nat.add_sub_cancel_left]
  exact Journal.events_recordAll_empty h.now (h.emitted call)

/-- What the calls of a run write tells what they emit. -/
theorem payloads_writings {start : House} (hrun : InPlace.run start calls = .ok h) :
    (start.writings calls).map (·.payload) = start.emissions calls := by
  induction calls generalizing start with
  | nil => rfl
  | cons call calls ih =>
    obtain ⟨answered, mid, hperform, hrun⟩ := run_cons_eq_ok hrun
    rw [writings_of_ok hperform, emissions_of_ok hperform, List.map_append, ih hrun,
      written_eq hperform, Journal.payloads_stamped]

/-- **The journal keeps the end of what a run writes.** -/
theorem events_run {start : House}
    (hfits : start.journal.events.length ≤ start.journal.capacity)
    (hrun : InPlace.run start calls = .ok h) :
    h.journal.events
      = (start.journal.events ++ start.writings calls).rtake start.journal.capacity := by
  induction calls generalizing start with
  | nil =>
    cases hrun
    rw [show h.writings [] = [] from rfl, List.append_nil, rtake_of_length_le hfits]
  | cons call calls ih =>
    obtain ⟨answered, mid, hperform, hrun⟩ := run_cons_eq_ok hrun
    have hevents := Journal.events_recordAll hfits start.now (start.emitted call)
    have hcapacity := Journal.capacity_recordAll (j := start.journal) start.now (start.emitted call)
    rw [← journal_eq_of_perform hperform] at hevents hcapacity
    rw [← written_eq hperform] at hevents
    rw [ih ?_ hrun, hevents, hcapacity, rtake_rtake_append, writings_of_ok hperform,
      List.append_assoc]
    rw [hevents, hcapacity, length_rtake]
    exact Nat.min_le_left _ _

/-- The journal keeps the end of what a run emits. -/
theorem payloads_run {start : House}
    (hfits : start.journal.payloads.length ≤ start.journal.capacity)
    (hrun : InPlace.run start calls = .ok h) :
    h.journal.payloads
      = (start.journal.payloads ++ start.emissions calls).rtake start.journal.capacity := by
  have hevents := events_run (by rwa [Journal.payloads, List.length_map] at hfits) hrun
  unfold Journal.payloads
  rw [hevents, map_rtake, List.map_append, payloads_writings hrun]

end House

end Clearing

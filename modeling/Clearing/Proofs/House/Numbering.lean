import Clearing.Proofs.House.Lengths

/-!
The numbers of the events.

Each event gets the next number and the time of the house, wherever in a call it is written, and the
journal is cut only once the event is in.  So one call writes its events under the next numbers, in
turn (`written_eq`), and a run goes on from one call to the next without leaving a number out.  How
many of the events are still in the journal at the end has no part in this.

Main statement: `run_journals`.
-/

namespace Clearing

namespace House

variable {h next : House} {call : Call} {calls : List Call} {answered : Except HouseError Reply}

/-! ### One call -/

/-- The next number after a call is as many further on as the call wrote events. -/
theorem nextId_of_perform (hperform : InPlace.perform h call = .ok (answered, next)) :
    next.journal.nextId = h.journal.nextId + (h.written call).length := by
  rw [written_eq hperform, Journal.length_stamped, journal_eq_of_perform hperform,
    Journal.nextId_recordAll]

/-- A call writes under the next numbers, in turn. -/
theorem ids_written (hperform : InPlace.perform h call = .ok (answered, next)) :
    (h.written call).map (·.id) = List.range' h.journal.nextId (h.written call).length := by
  rw [written_eq hperform, Journal.ids_stamped, Journal.length_stamped]

/-- A call writes at the time of the house. -/
theorem timestamp_of_written {e : Event} (he : e ∈ h.written call) : e.timestamp = h.now := by
  cases hperform : InPlace.perform h call with
  | error s =>
    unfold written at he
    rw [hperform] at he
    cases he
  | ok result =>
    rw [written_eq hperform] at he
    exact Journal.timestamp_of_stamped he

/-- A call that is refused writes nothing. -/
theorem written_of_refused {cause : HouseError}
    (hperform : InPlace.perform h call = .ok (.error cause, next)) : h.written call = [] := by
  rw [written_eq hperform, emitted_of_refused hperform, Journal.stamped_nil]

/-! ### Runs -/

/-- What a run writes is numbered from the next number of the house on, and the next number after
the run is the one after the last of them. -/
theorem ids_run {start : House} (hrun : InPlace.run start calls = .ok h) :
    (start.writings calls).map (·.id)
        = List.range' start.journal.nextId (start.writings calls).length ∧
      h.journal.nextId = start.journal.nextId + (start.writings calls).length := by
  induction calls generalizing start with
  | nil =>
    cases hrun
    exact ⟨rfl, rfl⟩
  | cons call calls ih =>
    obtain ⟨answered, mid, hperform, hrun⟩ := run_cons_eq_ok hrun
    obtain ⟨hids, hlast⟩ := ih hrun
    have hmid := nextId_of_perform hperform
    rw [writings_of_ok hperform, List.map_append, List.length_append]
    constructor
    · rw [ids_written hperform, hids, hmid, List.range'_append_1]
    · rw [hlast, hmid, Nat.add_assoc]

/-- **Events are numbered from one without a gap, and the last of them are kept.**  Whatever is
asked of a new house, the events of the calls bear the numbers from one on, in the order of writing,
each with the time of its call; the journal holds the last of them in order, as many as there are
and as the limits of the house allow; the latest ones that it shows are the end of these; and a
refused call uses up no number. -/
theorem run_journals {start : House} (hfounded : start.Founded) {calls : List Call}
    (hrun : InPlace.run start calls = .ok h) :
    (start.writings calls).map (·.id) = List.range' 1 (start.writings calls).length ∧
      (∀ m ∈ start.course calls, ∀ e ∈ m.house.written m.call, e.timestamp = m.house.now) ∧
      h.journal.nextId = (start.writings calls).length + 1 ∧
      h.journal.events = (start.writings calls).rtake
        (min (start.writings calls).length start.limits.maxEvents.toNat) ∧
      (∀ count, h.journal.recent count
        = h.journal.events.rtake (min count h.journal.events.length)) ∧
      ∀ m ∈ start.course calls, ∀ cause next, m.outcome = .ok (.error cause, next) →
        m.house.written m.call = [] ∧ next.journal.nextId = m.house.journal.nextId := by
  have hempty := hfounded.journal_eq
  have hfits : start.journal.events.length ≤ start.journal.capacity := by
    rw [hempty]
    exact Nat.zero_le _
  obtain ⟨hids, hlast⟩ := ids_run hrun
  refine ⟨?_, fun m _ e he => timestamp_of_written he, ?_, ?_, fun count => ?_,
    fun m hm cause next houtcome => ?_⟩
  · rw [hids, hempty]
    rfl
  · rw [hlast, hempty]
    exact Nat.add_comm _ _
  · rw [events_run hfits hrun, hempty, Nat.min_comm, rtake_min]
    rfl
  · exact (rtake_min h.journal.events count).symm
  · rw [outcome_of_mem_course hm] at houtcome
    exact ⟨written_of_refused houtcome, by rw [eq_of_refused houtcome]⟩

/-- Whether the call was refused. -/
def Moment.isRefused (m : Moment) : Bool :=
  match m.outcome with
  | .ok (.error _, _) => true
  | _ => false

/-- The sample calls, with one in their midst that is refused, and a later time from there on. -/
def sampleInterrupted : List Call :=
  sampleCalls.take 3 ++ [.refreshMarket ⟨1⟩ ⟨1⟩, .setTime ⟨5⟩] ++ sampleCalls.drop 3

/-- Nine events are written, a call among them is refused, and the journal has room for three. -/
theorem run_journals_nine :
    ∃ h, InPlace.run sampleForgetful sampleInterrupted = .ok h ∧
      ((sampleForgetful.course sampleInterrupted).any Moment.isRefused = true ∧
        h.journal.events.map (·.timestamp) = [⟨5⟩, ⟨5⟩, ⟨5⟩]) ∧
      (sampleForgetful.writings sampleInterrupted).map (·.id) = [1, 2, 3, 4, 5, 6, 7, 8, 9] ∧
      h.journal.events.map (·.id) = [7, 8, 9] ∧
      (h.journal.recent 2).map (·.id) = [8, 9] ∧ h.journal.nextId = 10 := by
  have hfounded : sampleForgetful.Founded := .empty _ _ _ _
  obtain ⟨h, hrun, htest⟩ := exists_of_succeedsWith
    (fun h : House => decide ((
        (sampleForgetful.course sampleInterrupted).any Moment.isRefused = true ∧
        h.journal.events.map (·.timestamp) = [⟨5⟩, ⟨5⟩, ⟨5⟩]) ∧
      (sampleForgetful.writings sampleInterrupted).length = 9))
    (x := InPlace.run sampleForgetful sampleInterrupted) (by decide +kernel)
  obtain ⟨hseen, hnine⟩ := of_decide_eq_true htest
  obtain ⟨hids, -, hlast, hevents, hrecent, -⟩ := run_journals hfounded hrun
  rw [hnine] at hids hlast hevents
  have hkept : h.journal.events.map (·.id) = [7, 8, 9] := by
    rw [hevents, map_rtake, hids]
    rfl
  refine ⟨h, hrun, hseen, hids, hkept, ?_, hlast⟩
  rw [hrecent, map_rtake, hkept, ← List.length_map (f := fun e : Event => e.id), hkept]
  rfl

end House

end Clearing

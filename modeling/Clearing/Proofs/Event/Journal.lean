import Clearing.Event.Replay
import Clearing.Proofs.Latest

/-!
What a journal keeps.

A journal that is full drops its oldest event for each new one, and gives a number to every event
all the same.  So it can be told from the journal alone whether anything is missing.  As long as
nothing is, every event that was ever written is there, and in the order of writing.
-/

namespace Clearing

namespace Journal

variable {j : Journal}

/-- What the kept events tell. -/
def payloads (j : Journal) : List Payload :=
  j.events.map (·.payload)

/-- There are no more events than numbers were given. -/
def Sound (j : Journal) : Prop :=
  j.events.length + 1 ≤ j.nextId

theorem sound_empty (capacity : Nat) : (empty capacity).Sound :=
  Nat.le_refl _

@[simp] theorem nextId_record (now : Instant) (payload : Payload) :
    (j.record now payload).nextId = j.nextId + 1 := rfl

theorem events_record (now : Instant) (payload : Payload) :
    (j.record now payload).events
      = (j.events ++ [(⟨j.nextId, now, payload⟩ : Event)]).rtake j.capacity := rfl

theorem length_record (now : Instant) (payload : Payload) :
    (j.record now payload).events.length = min (j.events.length + 1) j.capacity := by
  rw [events_record, length_rtake, List.length_append, List.length_singleton, Nat.min_comm]

theorem Sound.record (h : j.Sound) (now : Instant) (payload : Payload) :
    (j.record now payload).Sound := by
  unfold Sound at h ⊢
  rw [length_record, nextId_record]
  omega

/-- Where nothing is missing after a write, nothing was before it, and nothing was dropped. -/
theorem Complete.of_record {now : Instant} {payload : Payload}
    (h : (j.record now payload).Complete) (hsound : j.Sound) :
    j.Complete ∧ (j.record now payload).events = j.events ++ [⟨j.nextId, now, payload⟩] := by
  unfold Complete Sound at *
  rw [length_record, nextId_record] at h
  refine ⟨by omega, ?_⟩
  rw [events_record]
  refine rtake_of_length_le ?_
  rw [List.length_append, List.length_singleton]
  omega

theorem Sound.recordAll (h : j.Sound) (now : Instant) (payloads : List Payload) :
    (j.recordAll now payloads).Sound :=
  List.foldlRecOn payloads _ h fun _ hj payload _ => hj.record now payload

theorem Complete.of_recordAll {now : Instant} {payloads : List Payload}
    (h : (j.recordAll now payloads).Complete) (hsound : j.Sound) :
    j.Complete ∧ ∃ told, (j.recordAll now payloads).events = j.events ++ told ∧
      told.map (·.payload) = payloads := by
  induction payloads generalizing j with
  | nil => exact ⟨h, [], (List.append_nil _).symm, rfl⟩
  | cons payload payloads ih =>
    have hrest : ((j.record now payload).recordAll now payloads).Complete := h
    obtain ⟨hmid, told, hevents, htold⟩ := ih hrest (hsound.record now payload)
    obtain ⟨hfirst, hrecorded⟩ := hmid.of_record hsound
    rw [hrecorded, List.append_assoc, List.singleton_append] at hevents
    refine ⟨hfirst, ⟨j.nextId, now, payload⟩ :: told, hevents, ?_⟩
    rw [List.map_cons, htold]

/-! ### The events that are kept -/

/-- Events in turn, under the numbers from `first` on and all at one time. -/
def stamped (first : Nat) (now : Instant) (payloads : List Payload) : List Event :=
  (payloads.zipIdx first).map fun (payload, id) => ⟨id, now, payload⟩

variable {first : Nat} {now : Instant}

@[simp] theorem stamped_nil : stamped first now [] = [] := rfl

theorem stamped_cons (payload : Payload) (payloads : List Payload) :
    stamped first now (payload :: payloads)
      = ⟨first, now, payload⟩ :: stamped (first + 1) now payloads := rfl

@[simp] theorem length_stamped (payloads : List Payload) :
    (stamped first now payloads).length = payloads.length := by
  unfold stamped
  rw [List.length_map, List.length_zipIdx]

@[simp] theorem payloads_stamped (payloads : List Payload) :
    (stamped first now payloads).map (·.payload) = payloads := by
  unfold stamped
  rw [List.map_map]
  exact List.zipIdx_map_fst first payloads

theorem ids_stamped (payloads : List Payload) :
    (stamped first now payloads).map (·.id) = List.range' first payloads.length := by
  unfold stamped
  rw [List.map_map]
  exact List.zipIdx_map_snd first payloads

theorem timestamp_of_stamped {payloads : List Payload} {e : Event}
    (he : e ∈ stamped first now payloads) : e.timestamp = now := by
  obtain ⟨_, -, rfl⟩ := List.mem_map.1 he
  rfl

@[simp] theorem capacity_record (now : Instant) (payload : Payload) :
    (j.record now payload).capacity = j.capacity := rfl

theorem recordAll_cons (now : Instant) (payload : Payload) (payloads : List Payload) :
    j.recordAll now (payload :: payloads) = (j.record now payload).recordAll now payloads := rfl

@[simp] theorem capacity_recordAll (now : Instant) (payloads : List Payload) :
    (j.recordAll now payloads).capacity = j.capacity := by
  induction payloads generalizing j with
  | nil => rfl
  | cons payload payloads ih => rw [recordAll_cons, ih, capacity_record]

theorem nextId_recordAll (now : Instant) (payloads : List Payload) :
    (j.recordAll now payloads).nextId = j.nextId + payloads.length := by
  induction payloads generalizing j with
  | nil => rfl
  | cons payload payloads ih =>
    rw [recordAll_cons, ih, nextId_record, List.length_cons]
    omega

/-- A journal that is not over its capacity keeps the end of all that was written. -/
theorem events_recordAll (hfits : j.events.length ≤ j.capacity) (now : Instant)
    (payloads : List Payload) :
    (j.recordAll now payloads).events
      = (j.events ++ stamped j.nextId now payloads).rtake j.capacity := by
  induction payloads generalizing j with
  | nil =>
    rw [stamped_nil, List.append_nil, rtake_of_length_le hfits]
    rfl
  | cons payload payloads ih =>
    have hrecorded := events_record (j := j) now payload
    rw [recordAll_cons, ih ?_, hrecorded, capacity_record, nextId_record, rtake_rtake_append,
      List.append_assoc, List.singleton_append, stamped_cons]
    rw [hrecorded, capacity_record, length_rtake]
    exact Nat.min_le_left _ _

/-- An empty journal with room for all events keeps all. -/
theorem events_recordAll_empty (now : Instant) (payloads : List Payload) :
    (recordAll ⟨[], first, payloads.length⟩ now payloads).events
      = stamped first now payloads := by
  rw [events_recordAll (Nat.zero_le _)]
  exact rtake_of_length_le (Nat.le_of_eq (length_stamped payloads))

theorem payloads_recordAll_empty (now : Instant) (payloads : List Payload) :
    ((empty payloads.length).recordAll now payloads).payloads = payloads := by
  show List.map _ (recordAll ⟨[], 1, payloads.length⟩ now payloads).events = payloads
  rw [events_recordAll_empty, payloads_stamped]

end Journal

end Clearing

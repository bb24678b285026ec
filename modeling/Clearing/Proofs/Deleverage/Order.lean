import Clearing.Proofs.Decimal.Rounding
import Clearing.Proofs.Deleverage.Ranking
import Mathlib.Data.List.Nodup

/-!
The order of a ranking is a stable sort.

A ranking is never sorted: an entry is put where it belongs when it comes in, and its score is a
new one each time.  What keeps ties in order is the number of arrival that an entry never changes.
So a ranking can be read off the list of those who arrived, in the order in which they did: sort
that list by descending score and let ties stand as they are (`Lists.candidates_eq`).

`Lists` ties a ranking to such a list.  Putting a candidate in, taking one out and nothing else
changes either, and both sides change alike.
-/

namespace Clearing

open Decimal

/-! ### Which entry comes first -/

namespace Ranked

variable {a b c : Ranked}

theorem before_iff : a.before b ↔ b.candidate.score.units < a.candidate.score.units ∨
    ¬ a.candidate.score.units < b.candidate.score.units ∧ a.arrival < b.arrival := by
  unfold before
  rw [lt_iff_units, lt_iff_units]

theorem before_trans (h : a.before b) (h' : b.before c) : a.before c := by
  rw [before_iff] at *
  omega

theorem not_before_of_before (h : a.before b) : ¬ b.before a := by
  rw [before_iff] at *
  omega

/-- Of two entries that arrived one after the other, one comes before the other. -/
theorem before_of_not_before (hne : a.arrival ≠ b.arrival) (h : ¬ a.before b) : b.before a := by
  rw [before_iff] at *
  omega

end Ranked

/-! ### Lists of candidates -/

/-- Whether `a` may stand before `b` where only scores count. -/
def Candidate.scoresAtLeast (a b : Candidate) : Bool :=
  decide (b.score ≤ a.score)

theorem Candidate.scoresAtLeast_iff {a b : Candidate} :
    a.scoresAtLeast b = true ↔ b.score.units ≤ a.score.units := by
  unfold scoresAtLeast
  rw [decide_eq_true_iff, le_iff_units]

/-- Sorting keeps whatever order there was among elements that compare alike. -/
theorem pairwise_mergeSort_of_pairwise {α : Type} {le : α → α → Bool} {S : α → α → Prop}
    (trans : ∀ a b c, le a b = true → le b c = true → le a c = true)
    (total : ∀ a b, (le a b || le b a) = true) {xs : List α} (h : xs.Pairwise S) :
    (xs.mergeSort le).Pairwise fun a b => le a b = true ∧ (le b a = true → S a b) := by
  induction xs with
  | nil => simp
  | cons x xs ih =>
    obtain ⟨hx, hxs⟩ := List.pairwise_cons.1 h
    obtain ⟨front, back, hsort, hrest, hfront⟩ := List.mergeSort_cons trans total x xs
    have hsorted := List.pairwise_mergeSort trans total (x :: xs)
    have hmem : ∀ y ∈ back, S x y := fun y hy => by
      refine hx y ((List.mergeSort_perm xs le).mem_iff.1 ?_)
      rw [hrest]
      exact List.mem_append_right _ hy
    rw [hsort] at hsorted ⊢
    have hold := ih hxs
    rw [hrest] at hold
    obtain ⟨hfronts, hbacks, hacross⟩ := List.pairwise_append.1 hold
    obtain ⟨-, hback, hbefore⟩ := List.pairwise_append.1 hsorted
    refine List.pairwise_append.2 ⟨hfronts, List.pairwise_cons.2 ⟨fun y hy => ?_, hbacks⟩,
      fun y hy z hz => ?_⟩
    · exact ⟨(List.pairwise_cons.1 hback).1 y hy, fun _ => hmem y hy⟩
    · rcases List.mem_cons.1 hz with rfl | hz
      · -- Whoever is put before the new element is ahead of it by the comparison alone.
        have hnot := hfront y hy
        exact ⟨hbefore y hy z (List.mem_cons_self ..), fun hle => by simp [hle] at hnot⟩
      · exact hacross y hy z hz

/-- An element with a key of its own, and the rest. -/
theorem perm_cons_filter_ne {α κ : Type} [DecidableEq κ] (key : α → κ) {xs : List α}
    (h : (xs.map key).Nodup) {x : α} (hx : x ∈ xs) :
    xs.Perm (x :: xs.filter (key · ≠ key x)) := by
  induction xs with
  | nil => cases hx
  | cons y ys ih =>
    rw [List.map_cons, List.nodup_cons] at h
    obtain ⟨hy, hys⟩ := h
    rcases List.mem_cons.1 hx with rfl | hx
    · have hrest : ys.filter (key · ≠ key x) = ys := List.filter_eq_self.2 fun z hz => by
        have hne : key z ≠ key x := fun heq => hy (heq ▸ List.mem_map_of_mem hz)
        exact decide_eq_true hne
      rw [List.filter_cons_of_neg (by simp), hrest]
    · have hne : key y ≠ key x := fun heq => hy (heq ▸ List.mem_map_of_mem hx)
      rw [List.filter_cons_of_pos (by simpa using hne)]
      exact ((ih hys hx).cons y).trans (.swap ..)

namespace Ranking

/-! ### Places in a ranking -/

theorem mem_place {e x : Ranked} {xs : List Ranked} : x ∈ place e xs ↔ x = e ∨ x ∈ xs := by
  rw [(place_perm e xs).mem_iff, List.mem_cons]

/-- An entry goes where the order wants it, if no other arrived with it. -/
theorem place_sorted {e : Ranked} {xs : List Ranked} (h : xs.Pairwise Ranked.before)
    (hnew : ∀ x ∈ xs, x.arrival ≠ e.arrival) : (place e xs).Pairwise Ranked.before := by
  induction xs with
  | nil => exact List.pairwise_singleton ..
  | cons x xs ih =>
    obtain ⟨hx, hxs⟩ := List.pairwise_cons.1 h
    rw [place]
    by_cases hbefore : e.before x
    · rw [if_pos hbefore]
      refine List.pairwise_cons.2 ⟨fun y hy => ?_, h⟩
      rcases List.mem_cons.1 hy with rfl | hy
      · exact hbefore
      · exact Ranked.before_trans hbefore (hx y hy)
    · rw [if_neg hbefore]
      have hfirst : x.before e :=
        Ranked.before_of_not_before (Ne.symm (hnew x (List.mem_cons_self ..))) hbefore
      refine List.pairwise_cons.2 ⟨fun y hy => ?_, ih hxs fun y hy =>
        hnew y (List.mem_cons_of_mem _ hy)⟩
      rcases mem_place.1 hy with rfl | hy
      · exact hfirst
      · exact hx y hy

/-! ### A ranking and those who arrived -/

/-- Puts a candidate into a list: in the place of the one for its position, or at the end. -/
def arrive (xs : List Candidate) (c : Candidate) : List Candidate :=
  if ∃ x ∈ xs, x.position = c.position then
    xs.map fun x => if x.position = c.position then c else x
  else xs ++ [c]

/-- Takes a position out of a list. -/
def depart (xs : List Candidate) (id : PositionId) : List Candidate :=
  xs.filter (·.position ≠ id)

/-- The ranking holds the candidates of the list, who gain and stand for one position each, and
numbers them in the order of the list; `entries` is the list with these numbers. -/
structure ListsAs (r : Ranking) (xs : List Candidate) (entries : List Ranked) : Prop where
  listed : entries.map (·.candidate) = xs
  perm : entries.Perm r.order
  ascending : entries.Pairwise fun a b => a.arrival < b.arrival
  numbered : ∀ e ∈ entries, e.arrival < r.nextArrival
  sorted : r.order.Pairwise Ranked.before
  once : (xs.map (·.position)).Nodup
  gaining : ∀ c ∈ xs, zero < c.unrealizedPnl

/-- The ranking is what the list of arrivals makes it. -/
def Lists (r : Ranking) (xs : List Candidate) : Prop :=
  ∃ entries, ListsAs r xs entries

namespace ListsAs

variable {r : Ranking} {xs : List Candidate} {entries : List Ranked}

theorem candidates_perm (h : ListsAs r xs entries) : r.candidates.Perm xs := by
  rw [← h.listed]
  exact (h.perm.map _).symm

theorem positions_nodup (h : ListsAs r xs entries) :
    (entries.map (·.candidate.position)).Nodup := by
  have honce := h.once
  rwa [← h.listed, List.map_map] at honce

theorem order_nodup (h : ListsAs r xs entries) :
    (r.order.map (·.candidate.position)).Nodup :=
  (h.perm.map _).nodup_iff.1 h.positions_nodup

/-- No two entries arrived together. -/
theorem eq_of_arrival (h : ListsAs r xs entries) {a b : Ranked} (ha : a ∈ r.order)
    (hb : b ∈ r.order) (heq : a.arrival = b.arrival) : a = b := by
  have hnodup : (entries.map (·.arrival)).Nodup :=
    (List.pairwise_map.2 h.ascending).imp Nat.ne_of_lt
  exact List.inj_on_of_nodup_map hnodup (h.perm.mem_iff.2 ha) (h.perm.mem_iff.2 hb) heq

/-- The sorted entries are the ranking: both hold the same, and the order leaves no choice. -/
theorem order_eq (h : ListsAs r xs entries) :
    r.order = entries.mergeSort fun a b => a.candidate.scoresAtLeast b.candidate := by
  have htrans : ∀ a b c : Ranked, a.candidate.scoresAtLeast b.candidate = true →
      b.candidate.scoresAtLeast c.candidate = true →
      a.candidate.scoresAtLeast c.candidate = true := by
    simp only [Candidate.scoresAtLeast_iff]
    omega
  have htotal : ∀ a b : Ranked, (a.candidate.scoresAtLeast b.candidate
      || b.candidate.scoresAtLeast a.candidate) = true := by
    simp only [Bool.or_eq_true, Candidate.scoresAtLeast_iff]
    omega
  have hsort : (entries.mergeSort fun a b =>
      a.candidate.scoresAtLeast b.candidate).Pairwise Ranked.before := by
    refine (pairwise_mergeSort_of_pairwise htrans htotal h.ascending).imp fun {a b} hab => ?_
    obtain ⟨hle, htie⟩ := hab
    rw [Candidate.scoresAtLeast_iff] at hle htie
    rw [Ranked.before_iff]
    by_cases hback : a.candidate.score.units ≤ b.candidate.score.units
    · exact .inr ⟨by omega, htie hback⟩
    · exact .inl (by omega)
  have hperm := h.perm.symm.trans (List.mergeSort_perm entries fun a b =>
    a.candidate.scoresAtLeast b.candidate).symm
  exact List.Perm.eq_of_pairwise
    (fun a b _ _ hab hba => absurd hba (Ranked.not_before_of_before hab)) h.sorted hsort hperm

/-- **A ranking is a stable sort** of those who arrived, by descending score. -/
theorem candidates_eq (h : ListsAs r xs entries) :
    r.candidates = xs.mergeSort Candidate.scoresAtLeast := by
  unfold candidates
  rw [h.order_eq, ← h.listed]
  exact (List.map_mergeSort fun _ _ _ _ => rfl)

/-- A candidate for a position that is ranked keeps the arrival of the one it replaces. -/
theorem replace (h : ListsAs r xs entries) {c : Candidate}
    (hgains : zero < c.unrealizedPnl) {old : Ranked} (hold : old ∈ r.order)
    (hposition : old.candidate.position = c.position) :
    ListsAs { r with order := place ⟨old.arrival, c⟩ (r.remove c.position).order }
      (xs.map fun x => if x.position = c.position then c else x)
      (entries.map fun e => if e.candidate.position = c.position then ⟨e.arrival, c⟩ else e) := by
  have hrest : ∀ e ∈ (r.remove c.position).order, e ∈ r.order ∧ e.candidate.position ≠ c.position :=
    fun e he => ⟨List.mem_of_mem_filter he, of_decide_eq_true (List.mem_filter.1 he).2⟩
  have hpositions : (xs.map fun x => if x.position = c.position then c else x).map (·.position)
      = xs.map (·.position) := by
    rw [List.map_map]
    refine List.map_congr_left fun x _ => ?_
    by_cases hx : x.position = c.position <;> simp [hx]
  refine ⟨?_, ?_, ?_, fun e he => ?_, ?_, ?_, fun x hx => ?_⟩
  · rw [← h.listed, List.map_map, List.map_map]
    refine List.map_congr_left fun e _ => ?_
    by_cases he : e.candidate.position = c.position <;> simp [he]
  · -- The old entry becomes the new one and no other entry changes.
    have hsplit := perm_cons_filter_ne (·.candidate.position) h.order_nodup hold
    rw [hposition] at hsplit
    refine ((h.perm.trans hsplit).map _).trans ?_
    rw [List.map_cons, if_pos hposition]
    refine (List.Perm.cons _ ?_).trans (place_perm ..).symm
    have hsame : (r.remove c.position).order.map (fun e =>
        if e.candidate.position = c.position then ⟨e.arrival, c⟩ else e)
          = (r.remove c.position).order :=
      (List.map_congr_left fun e he => if_neg (hrest e he).2).trans (List.map_id _)
    exact .of_eq hsame
  · rw [List.pairwise_map]
    refine h.ascending.imp fun {a b} hab => ?_
    by_cases ha : a.candidate.position = c.position <;>
      by_cases hb : b.candidate.position = c.position <;> simpa [ha, hb] using hab
  · obtain ⟨e, hmem, rfl⟩ := List.mem_map.1 he
    have hlt := h.numbered e hmem
    by_cases hid : e.candidate.position = c.position <;> simpa [hid] using hlt
  · refine place_sorted (h.sorted.filter _) fun e he heq => ?_
    obtain ⟨hmem, hne⟩ := hrest e he
    exact hne ((h.eq_of_arrival hmem hold heq) ▸ hposition)
  · rw [hpositions]
    exact h.once
  · obtain ⟨y, hy, rfl⟩ := List.mem_map.1 hx
    by_cases hid : y.position = c.position
    · rw [if_pos hid]
      exact hgains
    · rw [if_neg hid]
      exact h.gaining y hy

/-- A candidate for a position that is not ranked arrives after all others. -/
theorem append (h : ListsAs r xs entries) {c : Candidate}
    (hgains : zero < c.unrealizedPnl) (hnew : ∀ x ∈ xs, x.position ≠ c.position) :
    ListsAs ⟨place ⟨r.nextArrival, c⟩ r.order, r.nextArrival + 1⟩ (xs ++ [c])
      (entries ++ [⟨r.nextArrival, c⟩]) := by
  have hlast : ∀ e ∈ r.order, e.arrival < r.nextArrival :=
    fun e he => h.numbered e (h.perm.mem_iff.2 he)
  refine ⟨?_, ?_, ?_, fun e he => ?_, ?_, ?_, fun x hx => ?_⟩
  · rw [List.map_append, h.listed]
    rfl
  · exact List.perm_append_comm.trans ((h.perm.cons _).trans (place_perm ..).symm)
  · refine List.pairwise_append.2 ⟨h.ascending, List.pairwise_singleton .., fun a ha b hb => ?_⟩
    rw [List.mem_singleton.1 hb]
    exact h.numbered a ha
  · rcases List.mem_append.1 he with he | he
    · exact Nat.lt_succ_of_lt (h.numbered e he)
    · rw [List.mem_singleton.1 he]
      exact Nat.lt_succ_self _
  · exact place_sorted h.sorted fun e he => Nat.ne_of_lt (hlast e he)
  · rw [List.map_append, List.nodup_append]
    refine ⟨h.once, List.nodup_singleton _, fun id hid id' hid' heq => ?_⟩
    obtain ⟨x, hx, rfl⟩ := List.mem_map.1 hid
    exact hnew x hx (heq.trans (List.mem_singleton.1 hid'))
  · rcases List.mem_append.1 hx with hx | hx
    · exact h.gaining x hx
    · rw [List.mem_singleton.1 hx]
      exact hgains

end ListsAs

namespace Lists

variable {r : Ranking} {xs : List Candidate}

theorem empty : Lists Ranking.empty [] :=
  ⟨[], rfl, .refl _, .nil, nofun, .nil, .nil, nofun⟩

theorem remove (h : Lists r xs) (id : PositionId) : Lists (r.remove id) (depart xs id) := by
  obtain ⟨entries, h⟩ := h
  refine ⟨entries.filter (·.candidate.position ≠ id), ?_, h.perm.filter _, h.ascending.filter _,
    fun e he => h.numbered e (List.mem_of_mem_filter he), h.sorted.filter _, ?_,
    fun c hc => h.gaining c (List.mem_of_mem_filter hc)⟩
  · rw [depart, ← h.listed, List.filter_map]
    rfl
  · exact h.once.sublist (List.filter_sublist.map _)

theorem upsert (h : Lists r xs) {c : Candidate} (hgains : zero < c.unrealizedPnl) :
    Lists (r.upsert c) (arrive xs c) := by
  obtain ⟨entries, h⟩ := h
  have hmem : ∀ x, x ∈ xs ↔ ∃ e ∈ r.order, e.candidate = x := fun x => by
    rw [← h.candidates_perm.mem_iff]
    exact List.mem_map
  unfold Ranking.upsert arrive
  cases hfound : r.ranked? c.position with
  | some old =>
    have hold := List.mem_of_find?_eq_some hfound
    have hposition : old.candidate.position = c.position := by
      simpa using List.find?_some hfound
    rw [if_pos ⟨old.candidate, (hmem _).2 ⟨old, hold, rfl⟩, hposition⟩]
    exact ⟨_, h.replace hgains hold hposition⟩
  | none =>
    have hnew : ∀ x ∈ xs, x.position ≠ c.position := fun x hx => by
      obtain ⟨e, he, rfl⟩ := (hmem x).1 hx
      simpa using List.find?_eq_none.1 hfound e he
    rw [if_neg fun ⟨x, hx, heq⟩ => hnew x hx heq]
    exact ⟨_, h.append hgains hnew⟩

end Lists

end Ranking

end Clearing

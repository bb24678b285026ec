import Clearing.Proofs.Deleverage.Amounts
import Clearing.Proofs.Deleverage.Walk
import Clearing.Proofs.Ledger.Indices

/-!
What a walk does, turn after turn.

A walk goes from pick to pick and stops where nothing is missing.  At each pick before that it
closes the whole position, or it takes exactly what is missing and then stops (`Turn`).  The
positions that are picked later are as open and as large as before.

So what a walk lists are its first picks, all but the last of them closed, and what it takes from
them are the amounts that the sizes of all its picks tell (`walk_adds`).
-/

namespace Clearing

open Decimal

/-- A forced reduction leaves the entries of other positions. -/
theorem Ledger.get?_entries_forceReduce {l : Ledger} (hstored : l.Stored) {id other : PositionId}
    {amount : Decimal} {price : Price} {schedule : MarginSchedule} {now : Instant}
    {posted : Posted Reduction} (h : l.forceReduce id amount price schedule now = .ok posted)
    (hother : other ≠ id) : posted.ledger.entries.get? other = l.entries.get? other := by
  obtain ⟨current, hcurrent, ⟨-, -, hcloses⟩ | ⟨-, -, p, notice, hsame, -, hamends⟩⟩ :=
    forceReduce_eq_ok h
  · rw [hcloses.get?_entries, hstored id current hcurrent, if_neg hother]
  · have hid := (Position.id_eq_of_identity hsame).trans (hstored id current hcurrent)
    rw [hamends.get?_entries, hid, if_neg hother]

namespace DeleverageQueue

/-- The size of a position in a count of units, nothing for one that is not open. -/
def sizeOf (l : Ledger) (id : PositionId) : Int :=
  ((l.position? id).map (·.size.units)).getD 0

theorem sizeOf_of_held {l : Ledger} {id : PositionId} {p : Position}
    (hp : l.position? id = some p) : sizeOf l id = p.size.units := by
  unfold sizeOf
  rw [hp]
  rfl

/-- The sizes of those picked. -/
def sizesOf (l : Ledger) (picks : List (Nat × Candidate)) : List Int :=
  picks.map fun pick => sizeOf l pick.2.position

theorem sizesOf_cons {l : Ledger} {pick : Nat × Candidate} {p : Position}
    (hp : l.position? pick.2.position = some p) (picks : List (Nat × Candidate)) :
    sizesOf l (pick :: picks) = p.size.units :: sizesOf l picks := by
  rw [← sizeOf_of_held hp]
  rfl

/-- What was taken, as the list tells it. -/
def taken (deleveraged : List Deleveraged) : List Int :=
  deleveraged.map (·.sizeClosed.units)

/-- The whole position was closed. -/
def WholeOf (l : Ledger) (d : Deleveraged) : Prop :=
  d.fullyClosed = true ∧ ∃ p, l.position? d.position = some p ∧ d.sizeClosed = p.size

/-- The rank, the position and the owner of a pick. -/
def turn (pick : Nat × Candidate) : Nat × PositionId × AccountId :=
  (pick.1, pick.2.position, pick.2.owner)

/-- The rank, the position and the owner in the list of those deleveraged. -/
def listed (d : Deleveraged) : Nat × PositionId × AccountId :=
  (d.rank, d.position, d.owner)

/-- The picks stand for open positions, each for another one. -/
structure Picked (l : Ledger) (picks : List (Nat × Candidate)) : Prop where
  indexed : l.WellIndexed
  held : ∀ pick ∈ picks, ∃ p, l.position? pick.2.position = some p
  once : (picks.map (·.2.position)).Nodup

variable {shortfall : Shortfall} {schedule : MarginSchedule} {now : Instant} {w next last : Walk}
  {pick : Nat × Candidate} {picks : List (Nat × Candidate)} {p : Position} {d : Deleveraged}
  {added : List Deleveraged}

/-! ### A turn -/

/-- What a pick does whose position `p` is open, while something is missing.  `d` is its entry in
the list. -/
structure Turn (w : Walk) (pick : Nat × Candidate) (p : Position) (next : Walk) (d : Deleveraged) :
    Prop where
  forced : ∃ amount price schedule now posted,
    w.ledger.forceReduce pick.2.position amount price schedule now = .ok posted ∧
      next.ledger = posted.ledger
  appended : next.deleveraged = w.deleveraged ++ [d]
  picked : listed d = turn pick
  amount : d.sizeClosed.units = min w.remaining.units p.size.units
  remaining : rounded? (w.remaining.units - min w.remaining.units p.size.units)
    = some next.remaining.units
  closed : rounded? (w.closed.units + min w.remaining.units p.size.units) = some next.closed.units
  whole : WholeOf w.ledger d ∨ next.remaining.units ≤ 0

/-- A forced reduction takes what it was asked for, or all there is. -/
theorem sizeClosed_forceReduce {l : Ledger} {id : PositionId} {amount : Decimal} {price : Price}
    {posted : Ledger.Posted Reduction} (hheld : l.position? id = some p)
    (h : l.forceReduce id amount price schedule now = .ok posted) :
    posted.result.sizeClosed.units = min amount.units p.size.units := by
  obtain ⟨current, hcurrent, hcases⟩ := Ledger.forceReduce_terms h
  obtain rfl : current = p := Option.some.inj (hcurrent.symm.trans hheld)
  rcases hcases with ⟨hcovers, -, hclosed, -⟩ | ⟨hless, -, hclosed, -⟩
  · rw [le_iff_units] at hcovers
    rw [hclosed]
    omega
  · rw [lt_iff_units] at hless
    rw [hclosed]
    omega

theorem take_turn (hp : w.ledger.position? pick.2.position = some p)
    (hmissing : ¬w.remaining ≤ .zero) (h : w.take shortfall schedule now pick = .ok next) :
    ∃ d, Turn w pick p next d := by
  obtain ⟨posted, remaining, closed, hforced, hremaining, hclosed, rfl⟩ :=
    take_of_held hp hmissing h
  have hamount := sizeClosed_forceReduce hp hforced
  rw [units_min, Int.min_assoc, Int.min_self] at hamount
  have hleft := units_of_subOrStop hremaining
  have htotal := units_of_addOrStop hclosed
  rw [hamount] at hleft htotal
  refine ⟨_, ⟨_, _, _, _, posted, hforced, rfl⟩, rfl, rfl, hamount, hleft, htotal, ?_⟩
  obtain ⟨current, hcurrent, hcases⟩ := Ledger.forceReduce_terms hforced
  obtain rfl : current = p := Option.some.inj (hcurrent.symm.trans hp)
  rcases hcases with ⟨-, hfully, hwhole, -⟩ | ⟨hless, -, -⟩
  · exact .inl ⟨hfully, current, hp, hwhole⟩
  · -- Less than the whole is taken only where less was missing.
    right
    rw [lt_iff_units, units_min] at hless
    rw [show w.remaining.units - min w.remaining.units current.size.units = 0 by omega] at hleft
    rw [← nearest_of_rounded? hleft, nearest_zero]

namespace Turn

theorem position_eq (h : Turn w pick p next d) : d.position = pick.2.position :=
  congrArg (·.2.1) h.picked

theorem get?_entries (h : Turn w pick p next d) (hstored : w.ledger.Stored) {id : PositionId}
    (hid : id ≠ d.position) : next.ledger.entries.get? id = w.ledger.entries.get? id := by
  obtain ⟨_, _, _, _, posted, hforced, hledger⟩ := h.forced
  rw [hledger, Ledger.get?_entries_forceReduce hstored hforced (h.position_eq ▸ hid)]

theorem position? (h : Turn w pick p next d) (hstored : w.ledger.Stored) {id : PositionId}
    (hid : id ≠ d.position) : next.ledger.position? id = w.ledger.position? id := by
  unfold Ledger.position?
  rw [h.get?_entries hstored hid]

end Turn

/-- Whoever is picked later has another position. -/
theorem Picked.position_ne {l : Ledger} (h : Picked l (pick :: picks)) {pick' : Nat × Candidate}
    (hpick' : pick' ∈ picks) : pick'.2.position ≠ pick.2.position := by
  intro heq
  have hnew := (List.nodup_cons.1 h.once).1
  exact hnew (List.mem_map.2 ⟨pick', hpick', heq⟩)

/-- The later picks stand for open positions still. -/
theorem Turn.later (h : Turn w pick p next d) (hpicks : Picked w.ledger (pick :: picks)) :
    Picked next.ledger picks := by
  refine ⟨?_, fun pick' hpick' => ?_, (List.nodup_cons.1 hpicks.once).2⟩
  · obtain ⟨_, _, _, _, posted, hforced, hledger⟩ := h.forced
    rw [hledger]
    exact hpicks.indexed.change (Ledger.forceReduce_change hforced)
  · rw [h.position? hpicks.indexed.stored (h.position_eq ▸ hpicks.position_ne hpick')]
    exact hpicks.held pick' (List.mem_cons_of_mem _ hpick')

/-- The later picks are as large as they were. -/
theorem Turn.sizesOf_later (h : Turn w pick p next d) (hpicks : Picked w.ledger (pick :: picks)) :
    sizesOf next.ledger picks = sizesOf w.ledger picks := by
  refine List.map_congr_left fun pick' hpick' => ?_
  unfold sizeOf
  rw [h.position? hpicks.indexed.stored (h.position_eq ▸ hpicks.position_ne hpick')]

/-! ### A walk -/

/-- What a walk adds to its list: some of the first picks in their order, all but the last of them
closed; from each it takes its amount, and it runs up the total of these. -/
structure Adds (w last : Walk) (picks : List (Nat × Candidate)) (added : List Deleveraged) :
    Prop where
  appended : last.deleveraged = w.deleveraged ++ added
  inTurn : added.map listed <+: picks.map turn
  whole : ∀ d ∈ added.dropLast, WholeOf w.ledger d
  untouched : ∀ id, (∀ d ∈ added, d.position ≠ id) →
    last.ledger.entries.get? id = w.ledger.entries.get? id
  took : taken added = amounts w.remaining.units (sizesOf w.ledger picks)
  total : runningTotal w.closed.units (taken added) = some last.closed.units

/-- A walk that takes nothing adds nothing. -/
theorem adds_nil (h : amounts w.remaining.units (sizesOf w.ledger picks) = []) :
    Adds w w picks [] :=
  ⟨(List.append_nil _).symm, List.nil_prefix, nofun, fun _ _ => rfl, h.symm, rfl⟩

/-- Only picks are added. -/
theorem Adds.exists_pick (h : Adds w last picks added) (hd : d ∈ added) :
    ∃ pick ∈ picks, pick.2.position = d.position := by
  obtain ⟨pick, hpick, hturn⟩ := List.mem_map.1 (h.inTurn.subset (List.mem_map_of_mem hd))
  exact ⟨pick, hpick, congrArg (·.2.1) hturn⟩

/-- Something is added where something is missing. -/
theorem Adds.ne_nil (h : Adds w last (pick :: picks) added) (hmissing : 0 < w.remaining.units) :
    added ≠ [] := by
  rintro rfl
  have htook := h.took
  rw [sizesOf, List.map_cons, amounts_cons hmissing] at htook
  cases htook

/-- What a walk adds from a pick on: what that pick adds, and what it adds behind it. -/
theorem Adds.cons (h : Adds next last picks added) (hturn : Turn w pick p next d)
    (hpicks : Picked w.ledger (pick :: picks))
    (hp : w.ledger.position? pick.2.position = some p) (hmissing : 0 < w.remaining.units) :
    Adds w last (pick :: picks) (d :: added) := by
  have hstored := hpicks.indexed.stored
  have htaken : taken (d :: added)
      = min w.remaining.units p.size.units :: amounts next.remaining.units
          (sizesOf w.ledger picks) := by
    rw [← hturn.amount, ← hturn.sizesOf_later hpicks, ← h.took]
    rfl
  refine ⟨?_, ?_, fun d' hd' => ?_, fun id hid => ?_, ?_, ?_⟩
  · rw [h.appended, hturn.appended, List.append_assoc, List.singleton_append]
  · rw [List.map_cons, List.map_cons, hturn.picked]
    exact (List.cons_prefix_cons ..).2 ⟨rfl, h.inTurn⟩
  · by_cases hne : added = []
    · subst hne
      nomatch hd'
    rw [List.dropLast_cons_of_ne_nil hne] at hd'
    rcases List.mem_cons.1 hd' with rfl | hd'
    · -- If anything is added behind it, something was still missing.
      refine hturn.whole.resolve_right fun hnone => hne ?_
      have htook := h.took
      rw [amounts_of_nonpos hnone] at htook
      exact List.map_eq_nil_iff.1 htook
    · -- It was as open before this pick, which is another position.
      obtain ⟨pick', hpick', hposition⟩ := h.exists_pick (List.dropLast_subset _ hd')
      have hother : d'.position ≠ d.position := by
        rw [hturn.position_eq, ← hposition]
        exact hpicks.position_ne hpick'
      obtain ⟨hfully, p', hp', hclosed⟩ := h.whole d' hd'
      exact ⟨hfully, p', (hturn.position? hstored hother).symm.trans hp', hclosed⟩
  · rw [h.untouched id fun d' hd' => hid d' (List.mem_cons_of_mem _ hd'),
      hturn.get?_entries hstored (hid d (List.mem_cons_self ..)).symm]
  · rw [htaken, sizesOf_cons hp, amounts_cons hmissing, nearest_of_rounded? hturn.remaining]
  · rw [htaken, runningTotal, hturn.closed, Option.bind_some, ← hturn.sizesOf_later hpicks,
      ← h.took]
    exact h.total

/-- A walk over open positions adds its first picks. -/
theorem walk_adds (hpicks : Picked w.ledger picks)
    (h : picks.foldlM (Walk.take shortfall schedule now) w = .ok last) :
    ∃ added, Adds w last picks added := by
  induction picks generalizing w with
  | nil =>
    rw [List.foldlM_nil, pure_eq_ok] at h
    subst h
    exact ⟨[], adds_nil rfl⟩
  | cons pick picks ih =>
    by_cases hdone : w.remaining ≤ .zero
    · rw [foldlM_take_of_done hdone, Except.ok.injEq] at h
      subst h
      rw [le_iff_units, units_zero] at hdone
      exact ⟨[], adds_nil (amounts_of_nonpos hdone _)⟩
    rw [List.foldlM_cons, bind_eq_ok] at h
    obtain ⟨next, htake, h⟩ := h
    obtain ⟨p, hp⟩ := hpicks.held pick (List.mem_cons_self ..)
    obtain ⟨d, hturn⟩ := take_turn hp hdone htake
    obtain ⟨added, hadds⟩ := ih (hturn.later hpicks) h
    rw [le_iff_units, units_zero] at hdone
    exact ⟨d :: added, hadds.cons hturn hpicks hp (by omega)⟩

/-! ### The picks of an execution -/

/-- The candidates behind the picks. -/
theorem map_picks (q : DeleverageQueue) (l : Ledger) (terms : DeleverageTerms) (lane : Lane) :
    (q.picks l terms lane).map (·.2) =
      ((q.candidates lane).filter fun c => l.contains c.position).take
        terms.maxPositions.toNat := by
  unfold picks
  exact List.map_snd_zip (by rw [List.length_range'])

theorem exists_of_contains {l : Ledger} {id : PositionId} (h : l.contains id = true) :
    ∃ p, l.position? id = some p := by
  obtain ⟨e, he⟩ := Option.isSome_iff_exists.1 h
  exact ⟨e.position, by unfold Ledger.position?; rw [he]; rfl⟩

/-- Where nobody is listed twice, nobody is picked twice. -/
theorem picks_nodup {q : DeleverageQueue} {lane : Lane}
    (honce : ((q.candidates lane).map (·.position)).Nodup) (l : Ledger) (terms : DeleverageTerms) :
    ((q.picks l terms lane).map (·.2.position)).Nodup := by
  have hsub : (((q.picks l terms lane).map (·.2)).map (·.position)).Sublist
      ((q.candidates lane).map (·.position)) := by
    rw [map_picks]
    exact ((List.take_sublist _ _).trans List.filter_sublist).map _
  rw [List.map_map] at hsub
  exact honce.sublist hsub

theorem picked_picks {q : DeleverageQueue} {l : Ledger} {lane : Lane} (hindexed : l.WellIndexed)
    (honce : ((q.candidates lane).map (·.position)).Nodup) (terms : DeleverageTerms) :
    Picked l (q.picks l terms lane) :=
  ⟨hindexed, fun _ hpick => exists_of_contains (mem_of_mem_picks hpick).2,
    picks_nodup honce l terms⟩

/-- What an execution lists is what its walk adds to nothing, and it reports the total of it. -/
theorem execute_adds {q left : DeleverageQueue} {l after : Ledger} {coverage : Coverage}
    (hindexed : l.WellIndexed)
    (honce : ((q.candidates shortfall.lane).map (·.position)).Nodup)
    (h : q.execute l schedule shortfall now = .ok (coverage, left, after)) :
    ∃ terms walk, q.terms? shortfall.market = some terms ∧ 0 < shortfall.size.units ∧
      q.picks l terms shortfall.lane ≠ [] ∧
      Adds (.start l shortfall) walk (q.picks l terms shortfall.lane) coverage.deleveraged ∧
      after = walk.ledger ∧ coverage.totalClosed = walk.closed ∧
      (coverage.fullyCovered = true ↔ shortfall.size.units ≤ walk.closed.units) := by
  obtain ⟨terms, walk, hpermit, hpicks, hwalk, hafter, hdeleveraged, -, hclosed, hcovered⟩ :=
    execute_eq_ok h
  obtain ⟨hterms, hsize⟩ := permit_eq_ok hpermit
  obtain ⟨added, hadds⟩ :=
    walk_adds (w := .start l shortfall) (picked_picks hindexed honce terms) hwalk
  obtain rfl : coverage.deleveraged = added :=
    hdeleveraged.trans (hadds.appended.trans (List.nil_append _))
  refine ⟨terms, walk, hterms, hsize, hpicks, hadds, hafter, hclosed, ?_⟩
  rw [hcovered]
  exact decide_eq_true_iff.trans le_iff_units

end DeleverageQueue

end Clearing

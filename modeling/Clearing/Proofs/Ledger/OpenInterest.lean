import Clearing.Proofs.Ledger.Indices
import Clearing.Proofs.Position.Quantities
import Mathlib.Algebra.Order.BigOperators.Group.List

/-!
Open interest and the sizes it is meant to add up.

Open interest is kept beside the positions: each change of a size is added to it, and sizes are
never added up again.  Sizes are exact but sums of decimals round, so open interest equals the
sum of the sizes (`Tracks`) only as long as every such sum comes out exact.  `Follows` is the law
that it obeys at each step whether exact or not, and `RoundsTo` what the law asks for where it has
been exact so far.
-/

namespace Clearing

open Decimal

namespace Ledger

/-- The open positions on one side of a market. -/
def positionsOn (l : Ledger) (lane : Lane) : List Position :=
  l.positions.filter (·.lane = lane)

/-- The exact sum of the sizes on one side of a market. -/
def sizeOn (l : Ledger) (lane : Lane) : Int :=
  ((l.positionsOn lane).map (·.size.units)).sum

/-- Open interest is the exact sum of the sizes, on each side of each market. -/
def Tracks (l : Ledger) : Prop :=
  ∀ lane, (l.openInterestOn lane).units = l.sizeOn lane

/-- The change in the sum of the sizes is rounded and added to open interest, which is rounded. -/
def Follows (l next : Ledger) : Prop :=
  ∀ lane, ∃ delta, rounded? (next.sizeOn lane - l.sizeOn lane) = some delta ∧
    rounded? ((l.openInterestOn lane).units + delta) = some (next.openInterestOn lane).units

/-- From the sum of the sizes in `l`, the two roundings lead to the sum of the sizes in `next`. -/
def RoundsTo (l next : Ledger) : Prop :=
  ∀ lane, ∃ delta, rounded? (next.sizeOn lane - l.sizeOn lane) = some delta ∧
    rounded? (l.sizeOn lane + delta) = some (next.sizeOn lane)

/-- **Open interest that is exact stays exact just where the roundings are.** -/
theorem Follows.tracks_iff {l next : Ledger} (h : Follows l next) (hl : l.Tracks) :
    next.Tracks ↔ RoundsTo l next := by
  constructor
  · intro hnext lane
    obtain ⟨delta, hdelta, hsum⟩ := h lane
    rw [hl lane, hnext lane] at hsum
    exact ⟨delta, hdelta, hsum⟩
  · intro hround lane
    obtain ⟨delta, hdelta, hsum⟩ := h lane
    obtain ⟨delta', hdelta', hsum'⟩ := hround lane
    rw [hl lane] at hsum
    rw [hdelta, Option.some.injEq] at hdelta'
    rw [← hdelta', hsum, Option.some.injEq] at hsum'
    exact hsum'

/-! ### The sum of the sizes through a step -/

/-- What a position adds to the sum on one side of a market. -/
def weight (lane : Lane) (p : Position) : Int :=
  if p.lane = lane then p.size.units else 0

theorem weight_self (p : Position) : weight p.lane p = p.size.units :=
  if_pos rfl

theorem weight_of_ne {lane : Lane} {p : Position} (h : lane ≠ p.lane) : weight lane p = 0 :=
  if_neg (Ne.symm h)

theorem sum_filter {α : Type} (keep : α → Prop) [DecidablePred keep] (f : α → Int) (xs : List α) :
    ((xs.filter (keep ·)).map f).sum = (xs.map fun x => if keep x then f x else 0).sum := by
  induction xs with
  | nil => rfl
  | cons x xs ih =>
    by_cases h : keep x
    · rw [List.filter_cons_of_pos (by simpa using h), List.map_cons, List.map_cons, List.sum_cons,
        List.sum_cons, ih, if_pos h]
    · rw [List.filter_cons_of_neg (by simpa using h), List.map_cons, List.sum_cons, ih, if_neg h,
        Int.zero_add]

theorem sizeOn_eq_total (l : Ledger) (lane : Lane) :
    l.sizeOn lane = l.entries.total fun e => weight lane e.position := by
  unfold sizeOn positionsOn positions
  rw [sum_filter, List.map_map]
  rfl

theorem share_entries (l : Ledger) (f : Position → Int) (id : PositionId) :
    l.entries.share (fun e => f e.position) id = ((l.position? id).map f).getD 0 := by
  unfold Table.share position?
  rw [Option.map_map]
  rfl

/-- The sum depends on what the positions weigh and on nothing else. -/
theorem sizeOn_congr {l next : Ledger} {lane : Lane}
    (h : ∀ id, (next.position? id).map (weight lane) = (l.position? id).map (weight lane)) :
    next.sizeOn lane = l.sizeOn lane := by
  rw [sizeOn_eq_total, sizeOn_eq_total]
  refine Table.total_congr id (fun e : Entry => weight lane e.position) fun k => ?_
  have hk := h k
  unfold position? at hk
  rwa [Option.map_map, Option.map_map] at hk

/-- Putting a position under its number adds it and takes off the one that was there. -/
theorem sizeOn_put {l next : Ledger} {p : Position}
    (h : ∀ id, next.position? id = if id = p.id then some p else l.position? id) (lane : Lane) :
    next.sizeOn lane + ((l.position? p.id).map (weight lane)).getD 0
      = l.sizeOn lane + weight lane p := by
  have hrecord : next.sizeOn lane = (l.record ⟨p, false⟩).sizeOn lane :=
    sizeOn_congr fun id => by rw [h, position?_record]
  rw [hrecord, sizeOn_eq_total, sizeOn_eq_total, ← share_entries]
  exact Table.total_insert _ l.entries p.id ⟨p, false⟩

/-- Removing a position takes it off. -/
theorem sizeOn_remove {l next : Ledger} {p : Position} (hp : l.position? p.id = some p)
    (h : ∀ id, next.position? id = if id = p.id then none else l.position? id) (lane : Lane) :
    next.sizeOn lane + weight lane p = l.sizeOn lane := by
  have hdismiss : next.sizeOn lane = (l.dismiss p).sizeOn lane :=
    sizeOn_congr fun id => by rw [h, position?_dismiss]
  have htotal := Table.total_erase (fun e => weight lane e.position) l.entries p.id
  rw [share_entries, hp, Option.map_some, Option.getD_some] at htotal
  rw [hdismiss, sizeOn_eq_total, sizeOn_eq_total]
  exact htotal

/-! ### Open interest through a step -/

/-- One lane moves by what a change of open interest is asked for; the others rest. -/
theorem follows_of_change {l next : Ledger} (lane : Lane) {delta : Decimal} {oi : OpenInterest}
    (hoi : (l.openInterest lane.market).change lane.side delta = .ok oi)
    (hnext : ∀ market,
      next.openInterest market = if market = lane.market then oi else l.openInterest market)
    (hsize : rounded? (next.sizeOn lane - l.sizeOn lane) = some delta.units)
    (hrest : ∀ other, other ≠ lane → next.sizeOn other = l.sizeOn other) : Follows l next := by
  obtain ⟨hsum, hothers⟩ := OpenInterest.change_eq_ok hoi
  intro other
  by_cases hother : other = lane
  · subst hother
    refine ⟨delta.units, hsize, ?_⟩
    unfold openInterestOn
    rw [hnext, if_pos rfl]
    exact hsum
  · refine ⟨0, ?_, ?_⟩
    · rw [hrest other hother, Int.sub_self]
      exact rounded?_units zero
    · have hsame : next.openInterestOn other = l.openInterestOn other := by
        unfold openInterestOn
        rw [hnext]
        by_cases heq : other.market = lane.market
        · rw [if_pos heq, heq]
          exact hothers _ fun hside => hother (Lane.ext heq hside)
        · rw [if_neg heq]
      rw [hsame, Int.add_zero]
      exact rounded?_units _

section step

variable {l next : Ledger} {p : Position} {now : Instant} {notice : Notice}

theorem Opens.follows (hindexed : l.WellIndexed) (h : Opens l p now notice next) :
    Follows l next := by
  obtain ⟨oi, hoi, hnext⟩ := h.openInterest
  have hsize : ∀ lane, next.sizeOn lane = l.sizeOn lane + weight lane p := by
    intro lane
    have hput := sizeOn_put h.position? lane
    rw [hindexed.position?_opened h] at hput
    simpa using hput
  refine follows_of_change p.lane hoi hnext ?_ ?_
  · rw [hsize, weight_self, show l.sizeOn p.lane + p.size.units - l.sizeOn p.lane = p.size.units by
      omega]
    exact rounded?_units _
  · intro other hother
    rw [hsize, weight_of_ne hother, Int.add_zero]

theorem Amends.follows {id : PositionId} {current : Position} {mark : Price}
    (hstored : l.Stored) (held : l.position? id = some current)
    (same : p.identity = current.identity) (h : Amends l current p mark now notice next) :
    Follows l next := by
  obtain ⟨delta, oi, hdelta, hoi, hnext⟩ := h.openInterest
  have hsize : ∀ lane, next.sizeOn lane + weight lane current = l.sizeOn lane + weight lane p := by
    intro lane
    have hput := sizeOn_put h.position? lane
    rwa [Position.id_eq_of_identity same, hstored.position?_id held] at hput
  have hlane : p.lane = current.lane := Position.lane_eq_of_identity same
  refine follows_of_change p.lane hoi hnext ?_ ?_
  · have hself := hsize p.lane
    rw [weight_self, hlane, weight_self, ← hlane] at hself
    rw [show next.sizeOn p.lane - l.sizeOn p.lane = p.size.units - current.size.units by omega]
    exact units_of_sub hdelta
  · intro other hother
    have hrest := hsize other
    rw [weight_of_ne hother, weight_of_ne (hlane ▸ hother)] at hrest
    omega

theorem Closes.follows {id : PositionId} (hstored : l.Stored) (h : Closes l id p now next) :
    Follows l next := by
  obtain ⟨oi, hoi, hnext⟩ := h.openInterest
  have hsize := sizeOn_remove (hstored.position?_id h.held) h.position?
  refine follows_of_change p.lane hoi hnext ?_ ?_
  · have hself := hsize p.lane
    rw [weight_self] at hself
    rw [show next.sizeOn p.lane - l.sizeOn p.lane = (-p.size).units by rw [units_neg]; omega]
    exact rounded?_units _
  · intro other hother
    have hrest := hsize other
    rw [weight_of_ne hother] at hrest
    omega

theorem Restates.follows (h : Restates l next) : Follows l next := by
  intro lane
  have hsize : next.sizeOn lane = l.sizeOn lane := by
    refine sizeOn_congr fun id => ?_
    have hstanding := congrArg
      (Option.map fun s : Position.Identity × Decimal =>
        if (⟨s.1.market, s.1.side⟩ : Lane) = lane then s.2.units else 0) (h.standing id)
    rwa [Option.map_map, Option.map_map] at hstanding
  refine ⟨0, ?_, ?_⟩
  · rw [hsize, Int.sub_self]
    exact rounded?_units zero
  · unfold openInterestOn openInterest
    rw [h.openInterests, Int.add_zero]
    exact rounded?_units _

theorem Change.follows (hstored : l.Stored) (h : Change l next) : Follows l next := by
  cases h with
  | amended held same _ amends => exact amends.follows hstored held same
  | closed closes => exact closes.follows hstored
  | restated restates => exact restates.follows

end step

end Ledger

end Clearing

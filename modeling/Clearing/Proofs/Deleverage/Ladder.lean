import Clearing.Proofs.Deleverage.Order

/-!
A ranking with an index.

A ranking looks for a position from the top.  A ladder keeps the same candidates by key, the score
and the arrival, and beside them the key of each position: it finds, ranks and removes a position
through its key and compares keys only.  The two parts have to be inverse to each other all the
time, while the key of a position changes whenever its score does.

`Ladder.Reads` says that a ladder holds what a ranking holds.  Every change keeps it, and under it
the two answer alike.
-/

namespace Clearing

open Decimal

/-- Where a candidate stands: by its score, and among equal scores by its arrival. -/
structure RankKey where
  score : Decimal
  arrival : Nat
deriving DecidableEq

/-- Whether what is kept under `a` is deleveraged before what is kept under `b`. -/
def RankKey.before (a b : RankKey) : Prop :=
  b.score < a.score ∨ ¬ a.score < b.score ∧ a.arrival < b.arrival

instance (a b : RankKey) : Decidable (a.before b) :=
  inferInstanceAs (Decidable (_ ∨ _))

/-- The key of an entry. -/
def Ranked.key (e : Ranked) : RankKey :=
  ⟨e.candidate.score, e.arrival⟩

/-- Candidates by ascending key, the key of each position, and the next time of arrival. -/
structure Ladder where
  rungs : List (RankKey × Candidate)
  index : Table PositionId RankKey
  nextArrival : Nat

namespace Ladder

/-- No candidates yet. -/
def empty : Ladder := ⟨[], .empty, 0⟩

/-- Sets the candidate under a key; two keys are the same where neither comes first. -/
def put (key : RankKey) (c : Candidate) : List (RankKey × Candidate) → List (RankKey × Candidate)
  | [] => [(key, c)]
  | x :: rest =>
    if key.before x.1 then (key, c) :: x :: rest
    else if x.1.before key then x :: put key c rest
    else (x.1, c) :: rest

/-- Removes the candidate under a key. -/
def drop (key : RankKey) (rungs : List (RankKey × Candidate)) : List (RankKey × Candidate) :=
  rungs.filter fun x => decide (x.1.before key ∨ key.before x.1)

/-- Puts a candidate in, under a key with the arrival it had or as the latest to arrive. -/
def upsert (l : Ladder) (c : Candidate) : Ladder :=
  match l.index.get? c.position with
  | some old =>
    let key : RankKey := ⟨c.score, old.arrival⟩
    ⟨put key c (drop old l.rungs), l.index.insert c.position key, l.nextArrival⟩
  | none =>
    let key : RankKey := ⟨c.score, l.nextArrival⟩
    ⟨put key c l.rungs, l.index.insert c.position key, l.nextArrival + 1⟩

/-- Takes a position out. -/
def remove (l : Ladder) (id : PositionId) : Ladder :=
  match l.index.get? id with
  | none => l
  | some key => { l with rungs := drop key l.rungs, index := l.index.erase id }

/-- The candidates, first to be deleveraged first. -/
def candidates (l : Ladder) : List Candidate :=
  l.rungs.map (·.2)

/-- How many candidates there are. -/
def length (l : Ladder) : Nat :=
  l.rungs.length

/-- Whether a position is a candidate. -/
def contains (l : Ladder) (id : PositionId) : Bool :=
  l.index.contains id

/-- The place of a position, counting from one: how many keys come before its own. -/
def rank? (l : Ladder) (id : PositionId) : Option Nat :=
  (l.index.get? id).map fun key => l.rungs.countP (fun x => decide (x.1.before key)) + 1

/-! ### Keys of entries -/

/-- An entry as a rung. -/
def rung (e : Ranked) : RankKey × Candidate :=
  (e.key, e.candidate)

theorem put_rung (e : Ranked) {xs : List Ranked} (hnew : ∀ x ∈ xs, x.arrival ≠ e.arrival) :
    put e.key e.candidate (xs.map rung) = (Ranking.place e xs).map rung := by
  induction xs with
  | nil => rfl
  | cons x xs ih =>
    rw [List.map_cons, put, Ranking.place]
    by_cases hbefore : e.before x
    · rw [if_pos hbefore, if_pos (show e.key.before (rung x).1 from hbefore)]
      rfl
    · have hfirst : x.before e :=
        Ranked.before_of_not_before (Ne.symm (hnew x (List.mem_cons_self ..))) hbefore
      rw [if_neg hbefore, if_neg (show ¬ e.key.before (rung x).1 from hbefore),
        if_pos (show (rung x).1.before e.key from hfirst),
        ih fun y hy => hnew y (List.mem_cons_of_mem _ hy), List.map_cons]

/-- In an order, as many entries come before the one at `i` as stand before it. -/
theorem countP_before {xs : List Ranked} (h : xs.Pairwise Ranked.before) {i : Nat} {e : Ranked}
    (hi : xs[i]? = some e) : xs.countP (fun x => decide (x.before e)) = i := by
  induction xs generalizing i with
  | nil => cases hi
  | cons x xs ih =>
    obtain ⟨hx, hxs⟩ := List.pairwise_cons.1 h
    cases i with
    | zero =>
      rw [List.getElem?_cons_zero, Option.some.injEq] at hi
      subst hi
      refine List.countP_eq_zero.2 fun y hy => ?_
      rw [decide_eq_true_iff]
      rcases List.mem_cons.1 hy with rfl | hy
      · exact fun hself => Ranked.not_before_of_before hself hself
      · exact Ranked.not_before_of_before (hx y hy)
    | succ i =>
      rw [List.getElem?_cons_succ] at hi
      have hbefore := hx e (List.mem_of_getElem? hi)
      rw [List.countP_cons, if_pos (decide_eq_true hbefore), ih hxs hi]

/-! ### A ladder and a ranking -/

/-- The ladder holds what the ranking holds, and its index says where. -/
structure Reads (l : Ladder) (r : Ranking) : Prop where
  rungs : l.rungs = r.order.map rung
  index : ∀ id key, l.index.get? id = some key ↔
    ∃ e ∈ r.order, e.candidate.position = id ∧ e.key = key
  nextArrival : l.nextArrival = r.nextArrival

namespace Reads

variable {l : Ladder} {r : Ranking} {xs : List Candidate} {entries : List Ranked}

theorem empty : Reads Ladder.empty Ranking.empty := by
  refine ⟨rfl, fun id key => ?_, rfl⟩
  constructor
  · nofun
  · rintro ⟨e, he, -⟩
    cases he

/-- The key of an entry is that entry's alone. -/
theorem drop_key (h : Reads l r) (hlists : r.ListsAs xs entries) {e : Ranked} (he : e ∈ r.order) :
    drop e.key l.rungs = (r.remove e.candidate.position).order.map rung := by
  rw [h.rungs, drop, List.filter_map, Ranking.remove]
  congr 1
  refine List.filter_congr fun x hx => ?_
  rw [Function.comp_apply, decide_eq_decide]
  show x.before e ∨ e.before x ↔ x.candidate.position ≠ e.candidate.position
  constructor
  · rintro hbefore heq
    obtain rfl := List.inj_on_of_nodup_map hlists.order_nodup hx he heq
    rcases hbefore with hself | hself <;> exact Ranked.not_before_of_before hself hself
  · intro hne
    have harrival : x.arrival ≠ e.arrival := fun heq =>
      hne (by rw [hlists.eq_of_arrival hx he heq])
    by_cases hbefore : x.before e
    · exact .inl hbefore
    · exact .inr (Ranked.before_of_not_before harrival hbefore)

theorem index_eq_none (h : Reads l r) {id : PositionId} :
    l.index.get? id = none ↔ ∀ e ∈ r.order, e.candidate.position ≠ id := by
  rw [Option.eq_none_iff_forall_ne_some]
  constructor
  · exact fun hnone e he heq => hnone e.key ((h.index id e.key).2 ⟨e, he, heq, rfl⟩)
  · rintro hnone key hkey
    obtain ⟨e, he, heq, -⟩ := (h.index id key).1 hkey
    exact hnone e he heq

theorem remove (h : Reads l r) (hlists : r.Lists xs) (id : PositionId) :
    Reads (l.remove id) (r.remove id) := by
  obtain ⟨entries, hlists⟩ := hlists
  unfold Ladder.remove
  cases hget : l.index.get? id with
  | none =>
    have hsame : r.remove id = r := by
      refine Ranking.ext (List.filter_eq_self.2 fun e he => ?_) rfl
      exact decide_eq_true (h.index_eq_none.1 hget e he)
    rw [hsame]
    exact h
  | some key =>
    obtain ⟨e, he, rfl, rfl⟩ := (h.index id key).1 hget
    refine ⟨h.drop_key hlists he, fun id' key' => ?_, h.nextArrival⟩
    dsimp only
    rw [Table.get?_erase_eq]
    simp only [Ranking.remove, List.mem_filter, decide_eq_true_eq]
    by_cases hid : id' = e.candidate.position
    · rw [if_pos hid]
      constructor
      · nofun
      · rintro ⟨x, ⟨-, hne⟩, heq, -⟩
        exact absurd (heq.trans hid) hne
    · rw [if_neg hid, h.index]
      constructor
      · rintro ⟨x, hx, rfl, hkey⟩
        exact ⟨x, ⟨hx, hid⟩, rfl, hkey⟩
      · rintro ⟨x, ⟨hx, -⟩, heq, hkey⟩
        exact ⟨x, hx, heq, hkey⟩

/-- What an index says after a candidate was put in, with its new key. -/
theorem index_insert (h : Reads l r) {e : Ranked} {order : List Ranked}
    (horder : ∀ x, x ∈ order ↔ x = e ∨ x ∈ r.order ∧ x.candidate.position ≠ e.candidate.position)
    (id : PositionId) (key : RankKey) :
    (l.index.insert e.candidate.position e.key).get? id = some key ↔
      ∃ x ∈ order, x.candidate.position = id ∧ x.key = key := by
  rw [Table.get?_insert_eq]
  by_cases hid : id = e.candidate.position
  · rw [if_pos hid, Option.some.injEq]
    constructor
    · exact fun hkey => ⟨e, (horder e).2 (.inl rfl), hid.symm, hkey⟩
    · rintro ⟨x, hx, heq, hkey⟩
      rcases (horder x).1 hx with rfl | ⟨-, hne⟩
      · exact hkey
      · exact absurd (heq.trans hid) hne
  · rw [if_neg hid, h.index]
    constructor
    · rintro ⟨x, hx, rfl, hkey⟩
      exact ⟨x, (horder x).2 (.inr ⟨hx, hid⟩), rfl, hkey⟩
    · rintro ⟨x, hx, heq, hkey⟩
      rcases (horder x).1 hx with rfl | ⟨hold, -⟩
      · exact absurd heq.symm hid
      · exact ⟨x, hold, heq, hkey⟩

theorem upsert (h : Reads l r) (hlists : r.Lists xs) (c : Candidate) :
    Reads (l.upsert c) (r.upsert c) := by
  obtain ⟨entries, hlists⟩ := hlists
  unfold Ladder.upsert Ranking.upsert
  cases hfound : r.ranked? c.position with
  | some old =>
    have hold := List.mem_of_find?_eq_some hfound
    have hposition : old.candidate.position = c.position := by
      simpa using List.find?_some hfound
    have hrest : ∀ x ∈ (r.remove c.position).order,
        x ∈ r.order ∧ x.candidate.position ≠ c.position := fun x hx =>
      ⟨List.mem_of_mem_filter hx, of_decide_eq_true (List.mem_filter.1 hx).2⟩
    have hget := (h.index c.position old.key).2 ⟨old, hold, hposition, rfl⟩
    rw [hget]
    have hdrop := h.drop_key hlists hold
    rw [hposition] at hdrop
    refine ⟨?_, h.index_insert (e := ⟨old.arrival, c⟩) fun x => ?_, h.nextArrival⟩
    · dsimp only
      rw [hdrop]
      refine put_rung ⟨old.arrival, c⟩ fun x hx heq => ?_
      obtain ⟨hmem, hne⟩ := hrest x hx
      exact hne (by rw [hlists.eq_of_arrival hmem hold heq, hposition])
    · rw [Ranking.mem_place]
      simp [Ranking.remove]
  | none =>
    have hnone : ∀ e ∈ r.order, e.candidate.position ≠ c.position := fun e he => by
      simpa using List.find?_eq_none.1 hfound e he
    rw [h.index_eq_none.2 hnone]
    refine ⟨?_, ?_, congrArg (· + 1) h.nextArrival⟩
    · dsimp only
      rw [h.rungs, h.nextArrival]
      exact put_rung ⟨r.nextArrival, c⟩ fun x hx =>
        Nat.ne_of_lt (hlists.numbered x (hlists.perm.mem_iff.2 hx))
    · dsimp only
      rw [h.nextArrival]
      refine h.index_insert (e := ⟨r.nextArrival, c⟩) fun x => ?_
      rw [Ranking.mem_place]
      exact or_congr_right (iff_self_and.2 (hnone x))

/-! ### The same answers -/

theorem candidates_eq (h : Reads l r) : l.candidates = r.candidates := by
  unfold candidates Ranking.candidates
  rw [h.rungs, List.map_map]
  rfl

theorem length_eq (h : Reads l r) : l.length = r.order.length := by
  unfold length
  rw [h.rungs, List.length_map]

theorem contains_eq (h : Reads l r) (id : PositionId) : l.contains id = (r.ranked? id).isSome := by
  unfold contains Table.contains
  cases hget : l.index.get? id with
  | none =>
    have hnone := h.index_eq_none.1 hget
    have hfind : r.ranked? id = none := List.find?_eq_none.2 fun e he => by simpa using hnone e he
    rw [hfind]
    rfl
  | some key =>
    obtain ⟨e, he, heq, -⟩ := (h.index id key).1 hget
    exact (List.find?_isSome.2 ⟨e, he, by simpa using heq⟩).symm

/-- Counting the keys before one's own counts the candidates ahead. -/
theorem rank?_eq (h : Reads l r) (hlists : r.Lists xs) (id : PositionId) :
    l.rank? id = r.rank? id := by
  obtain ⟨entries, hlists⟩ := hlists
  unfold rank? Ranking.rank?
  cases hfind : r.order.findIdx? (·.candidate.position = id) with
  | none =>
    have hnone : ∀ e ∈ r.order, e.candidate.position ≠ id := fun e he => by
      simpa using List.findIdx?_eq_none_iff.1 hfind e he
    rw [h.index_eq_none.2 hnone]
    rfl
  | some i =>
    obtain ⟨hi, hid, -⟩ := List.findIdx?_eq_some_iff_getElem.1 hfind
    have hget := (h.index id r.order[i].key).2
      ⟨r.order[i], List.getElem_mem hi, of_decide_eq_true hid, rfl⟩
    rw [hget, Option.map_some, Option.map_some, h.rungs, List.countP_map]
    exact congrArg (fun n => some (n + 1))
      (countP_before hlists.sorted (List.getElem?_eq_getElem hi))

end Reads

end Ladder

end Clearing

import Clearing.Deleverage.Operation
import Clearing.Proofs.Deleverage.Ladder
import Clearing.Proofs.Ledger.Runs

/-!
A queue over a whole run.

Two other ways to keep the candidates of a lane follow the same run.  One is the list of those who
arrived: an update of a candidate in the list takes its place there, an update of any other goes to
the end, and whoever gains nothing, is removed or leaves with an execution is struck out.  The other
is a ladder with its index.

Main statement: `run_sorts`.  At the end of every run the queue holds the list of arrivals sorted by
descending score with ties as they arrived, and the ladder answers as the queue does.
-/

namespace Clearing

open Decimal

/-- A way to keep the candidates of a lane. -/
structure Keeping (σ : Type) where
  candidates : σ → List Candidate
  upsert : σ → Candidate → σ
  remove : σ → PositionId → σ

namespace Keeping

open DeleverageQueue (Operation Reply)

/-- The list of those who arrived, in that order. -/
def arrivals : Keeping (List Candidate) :=
  ⟨id, Ranking.arrive, Ranking.depart⟩

/-- A ladder. -/
def ladder : Keeping Ladder :=
  ⟨Ladder.candidates, Ladder.upsert, Ladder.remove⟩

variable {σ : Type} (k : Keeping σ) (lane : Lane)

/-- Who leaves with an execution: those it touched, and those whose position is not open. -/
def leaving (s : σ) (ledger : Ledger) (coverage : Coverage) : List PositionId :=
  coverage.deleveraged.map (·.position) ++
    ((k.candidates s).filter fun c => !ledger.contains c.position).map (·.position)

/-- What an operation with this reply changes in a lane. -/
def follow (s : σ) : Operation × Except DeleverageError Reply → σ
  | (.update c, _) =>
    if c.lane ≠ lane then s
    else if c.isProfitable then k.upsert s c
    else k.remove s c.position
  | (.remove other id, _) => if other ≠ lane then s else k.remove s id
  | (.execute ledger _ shortfall _, .ok (.covered coverage _)) =>
    if shortfall.lane ≠ lane then s
    else (k.leaving s ledger coverage).foldl k.remove s
  | _ => s

/-- What a run with these replies changes in a lane. -/
def followAll (s : σ) (ops : List Operation) (replies : List (Except DeleverageError Reply)) : σ :=
  (ops.zip replies).foldl (k.follow lane) s

end Keeping

/-! ### The ranking of a lane -/

theorem Ranking.foldl_remove (r : Ranking) (ids : List PositionId) :
    ids.foldl Ranking.remove r =
      { r with order := r.order.filter fun e => e.candidate.position ∉ ids } := by
  induction ids generalizing r with
  | nil => simp
  | cons id ids ih =>
    rw [List.foldl_cons, ih]
    simp only [Ranking.remove, List.filter_filter]
    congr 1
    refine List.filter_congr fun e _ => ?_
    simp [not_or, Bool.and_comm]

/-- In which order positions are taken out does not matter. -/
theorem Ranking.foldl_remove_congr (r : Ranking) {ids ids' : List PositionId}
    (h : ∀ id, id ∈ ids ↔ id ∈ ids') :
    ids.foldl Ranking.remove r = ids'.foldl Ranking.remove r := by
  rw [foldl_remove, foldl_remove]
  simp only [h]

/-! ### Following operations -/

namespace Keeping

open DeleverageQueue (Operation Reply)

variable {σ : Type} {k : Keeping σ} {q next : DeleverageQueue} {lane : Lane}

/-- How a way to keep candidates stands to a ranking, whatever is done to both. -/
structure Follows (k : Keeping σ) (R : σ → Ranking → Prop) : Prop where
  members : ∀ {s r}, R s r → ∀ c, c ∈ k.candidates s ↔ c ∈ r.candidates
  upsert : ∀ {s r c}, R s r → zero < c.unrealizedPnl → R (k.upsert s c) (r.upsert c)
  remove : ∀ {s r} id, R s r → R (k.remove s id) (r.remove id)

namespace Follows

variable {R : σ → Ranking → Prop}

theorem removeAll (h : k.Follows R) {s : σ} {r : Ranking} (hR : R s r) (ids : List PositionId) :
    R (ids.foldl k.remove s) (ids.foldl Ranking.remove r) := by
  induction ids generalizing s r with
  | nil => exact hR
  | cons id ids ih => exact ih (h.remove id hR)

/-- An execution takes the same positions out of both. -/
theorem execute (h : k.Follows R) {s : σ} (hR : R s (q.ranking lane)) {ledger walked : Ledger}
    {schedule : MarginSchedule} {shortfall : Shortfall} {now : Instant} {coverage : Coverage}
    (hx : q.execute ledger schedule shortfall now = .ok (coverage, next, walked)) :
    R (k.follow lane s (.execute ledger schedule shortfall now, .ok (.covered coverage walked)))
      (next.ranking lane) := by
  obtain ⟨terms, walk, -, -, -, -, hdeleveraged, hrankings, -⟩ :=
    DeleverageQueue.execute_eq_ok hx
  rw [DeleverageQueue.ranking_congr hrankings, DeleverageQueue.ranking_foldl_remove]
  show R (if shortfall.lane ≠ lane then s else _) _
  by_cases hlane : shortfall.lane = lane
  · rw [if_neg (not_not.2 hlane), if_neg (not_not.2 hlane), ← hdeleveraged, hlane]
    have hsame : ∀ id, id ∈ k.leaving s ledger coverage ↔
        id ∈ coverage.deleveraged.map (·.position) ++ (q.stale ledger lane).map (·.position) := by
      intro id
      unfold leaving DeleverageQueue.stale DeleverageQueue.candidates
      simp only [List.mem_append, List.mem_map, List.mem_filter, h.members hR]
    rw [← Ranking.foldl_remove_congr _ hsame]
    exact h.removeAll hR _
  · rw [if_pos hlane, if_pos hlane]
    exact hR

/-- What is kept follows every operation. -/
theorem perform (h : k.Follows R) {s : σ} (hR : R s (q.ranking lane)) {op : Operation}
    {reply : Except DeleverageError Reply} (hperform : q.perform op = .ok (reply, next)) :
    R (k.follow lane s (op, reply)) (next.ranking lane) := by
  rcases orStay_eq_ok.1 hperform with ⟨r, rfl, hanswer⟩ | ⟨cause, rfl, hanswer, rfl⟩
  · cases op with
    | configure market terms =>
      simp only [DeleverageQueue.answer, bind_eq_ok, refusing_eq_ok, pure_eq_ok,
        Prod.mk.injEq] at hanswer
      obtain ⟨⟨earlier, configured⟩, hconfigure, -, rfl⟩ := hanswer
      unfold DeleverageQueue.ranking
      rw [DeleverageQueue.rankings_configure hconfigure]
      exact hR
    | toggle market =>
      simp only [DeleverageQueue.answer, bind_eq_ok, refusing_eq_ok, pure_eq_ok,
        Prod.mk.injEq] at hanswer
      obtain ⟨⟨active, toggled⟩, htoggle, -, rfl⟩ := hanswer
      unfold DeleverageQueue.ranking
      rw [DeleverageQueue.rankings_toggle htoggle]
      exact hR
    | update c =>
      cases hanswer
      rw [DeleverageQueue.ranking_update]
      unfold follow
      dsimp only
      by_cases hlane : c.lane = lane
      · rw [if_neg (not_not.2 hlane), if_neg (not_not.2 hlane)]
        by_cases hgains : c.isProfitable = true
        · rw [if_pos hgains, if_pos hgains]
          exact h.upsert hR (of_decide_eq_true hgains)
        · rw [if_neg hgains, if_neg hgains]
          exact h.remove _ hR
      · rw [if_pos hlane, if_pos hlane]
        exact hR
    | remove other id =>
      cases hanswer
      rw [DeleverageQueue.ranking_remove]
      unfold follow
      dsimp only
      by_cases hlane : other = lane
      · rw [if_neg (not_not.2 hlane), if_neg (not_not.2 hlane)]
        exact h.remove _ hR
      · rw [if_pos hlane, if_pos hlane]
        exact hR
    | execute ledger schedule shortfall now =>
      simp only [DeleverageQueue.answer, bind_eq_ok, pure_eq_ok, Prod.mk.injEq] at hanswer
      obtain ⟨⟨coverage, _, walked⟩, hx, rfl, rfl⟩ := hanswer
      exact h.execute hR hx
  · cases op with
    | update c => cases hanswer
    | remove other id => cases hanswer
    | _ => exact hR

/-- What is kept follows every run. -/
theorem run (h : k.Follows R) {s : σ} (hR : R s (q.ranking lane)) {ops : List Operation}
    {replies : List (Except DeleverageError Reply)} (hrun : q.run ops = .ok (replies, next)) :
    R (k.followAll lane s ops replies) (next.ranking lane) := by
  induction ops generalizing q s replies with
  | nil =>
    cases hrun
    exact hR
  | cons op ops ih =>
    obtain ⟨reply, mid, rest, hperform, hrest, rfl⟩ := inTurn_cons_eq_ok.1 hrun
    exact ih (h.perform hR hperform) hrest

end Follows

theorem arrivals_follows : arrivals.Follows fun xs r => r.Lists xs where
  members := fun ⟨_, hlists⟩ _ => hlists.candidates_perm.mem_iff.symm
  upsert := fun hlists hgains => hlists.upsert hgains
  remove := fun id hlists => hlists.remove id

theorem ladder_follows : ladder.Follows fun l r => l.Reads r ∧ ∃ xs, r.Lists xs where
  members := fun ⟨hreads, _⟩ c => by rw [← hreads.candidates_eq]; exact Iff.rfl
  upsert := fun ⟨hreads, _, hlists⟩ hgains =>
    ⟨hreads.upsert hlists _, _, hlists.upsert hgains⟩
  remove := fun id ⟨hreads, _, hlists⟩ => ⟨hreads.remove hlists id, _, hlists.remove id⟩

end Keeping

/-! ### What a queue shows -/

namespace DeleverageQueue

variable {q : DeleverageQueue} {lane : Lane}

/-- A lane of the queue is the list of arrivals in the order of deleveraging. -/
structure Sorts (q : DeleverageQueue) (lane : Lane) (arrived : List Candidate) : Prop where
  candidates : q.candidates lane = arrived.mergeSort Candidate.scoresAtLeast
  length : q.length lane = arrived.length
  contains : ∀ id, q.contains lane id = true ↔ ∃ c ∈ arrived, c.position = id
  rank : ∀ id n, q.rank? lane id = some n ↔
    ∃ i c, (q.candidates lane)[i]? = some c ∧ c.position = id ∧ n = i + 1
  once : ((q.candidates lane).map (·.position)).Nodup
  gaining : ∀ c ∈ q.candidates lane, zero < c.unrealizedPnl

/-- A ladder answers for a lane as the queue does. -/
structure Agrees (q : DeleverageQueue) (lane : Lane) (ladder : Ladder) : Prop where
  candidates : ladder.candidates = q.candidates lane
  length : ladder.length = q.length lane
  contains : ∀ id, ladder.contains id = q.contains lane id
  rank : ∀ id, ladder.rank? id = q.rank? lane id

/-- Where no position comes twice, the rank of one is its place. -/
theorem rank?_eq_some_iff (honce : ((q.candidates lane).map (·.position)).Nodup)
    {id : PositionId} {n : Nat} : q.rank? lane id = some n ↔
      ∃ i c, (q.candidates lane)[i]? = some c ∧ c.position = id ∧ n = i + 1 := by
  have hplaces : q.rank? lane id
      = ((q.candidates lane).findIdx? (·.position = id)).map (· + 1) := by
    unfold rank? Ranking.rank? candidates Ranking.candidates
    rw [List.findIdx?_map]
    rfl
  rw [hplaces, Option.map_eq_some_iff]
  constructor
  · rintro ⟨i, hfind, rfl⟩
    obtain ⟨hi, hid, -⟩ := List.findIdx?_eq_some_iff_getElem.1 hfind
    exact ⟨i, _, List.getElem?_eq_getElem hi, of_decide_eq_true hid, rfl⟩
  · rintro ⟨i, c, hget, rfl, rfl⟩
    obtain ⟨hi, rfl⟩ := List.getElem?_eq_some_iff.1 hget
    refine ⟨i, List.findIdx?_eq_some_iff_getElem.2 ⟨hi, by simp, fun j hji => ?_⟩, rfl⟩
    rw [Bool.not_eq_true, decide_eq_false_iff_not]
    intro heq
    have hsame : ((q.candidates lane).map (·.position))[j]?
        = ((q.candidates lane).map (·.position))[i]? := by
      rw [List.getElem?_map, List.getElem?_map, List.getElem?_eq_getElem hi,
        List.getElem?_eq_getElem (hji.trans hi), Option.map_some, Option.map_some, heq]
    have hlt : j < ((q.candidates lane).map (·.position)).length := by
      rw [List.length_map]
      exact hji.trans hi
    exact Nat.ne_of_lt hji ((List.getElem?_inj hlt honce).1 hsame)

theorem sorts_of_lists {arrived : List Candidate} (h : (q.ranking lane).Lists arrived) :
    q.Sorts lane arrived := by
  obtain ⟨entries, h⟩ := h
  have hperm : (q.candidates lane).Perm arrived := h.candidates_perm
  have honce := (hperm.map (·.position)).nodup_iff.2 h.once
  exact {
    candidates := h.candidates_eq
    length := by
      rw [← hperm.length_eq]
      exact List.length_map ..|>.symm
    contains := fun id => by
      rw [contains_iff]
      simp only [hperm.mem_iff]
    rank := fun id n => rank?_eq_some_iff honce
    once := honce
    gaining := fun c hc => h.gaining c (hperm.mem_iff.1 hc) }

/-- At the end of every run a lane is what the list of arrivals makes it. -/
theorem run_lists {maxHistory : Nat} {ops : List Operation}
    {replies : List (Except DeleverageError Reply)}
    (h : (empty maxHistory).run ops = .ok (replies, q)) (lane : Lane) :
    (q.ranking lane).Lists (Keeping.arrivals.followAll lane [] ops replies) := by
  have hnone : ((empty maxHistory).ranking lane).Lists [] := Ranking.Lists.empty
  exact Keeping.arrivals_follows.run hnone h

/-- **What a queue is after any run.**  Each lane holds those who arrived and did not leave, sorted
by descending score with ties in the order of arrival.  Its length, who is in it and which place
each has are those of that list; no position is in it twice, and everyone in it gains.  A ladder
fed by the same run answers all of this alike. -/
theorem run_sorts {maxHistory : Nat} {ops : List Operation}
    {replies : List (Except DeleverageError Reply)}
    (h : (empty maxHistory).run ops = .ok (replies, q)) (lane : Lane) :
    q.Sorts lane (Keeping.arrivals.followAll lane [] ops replies) ∧
      q.Agrees lane (Keeping.ladder.followAll lane .empty ops replies) := by
  have hnone : ((empty maxHistory).ranking lane).Lists [] := Ranking.Lists.empty
  have hbare : Ladder.empty.Reads ((empty maxHistory).ranking lane) := Ladder.Reads.empty
  have hlists := run_lists h lane
  obtain ⟨hreads, -⟩ := Keeping.ladder_follows.run ⟨hbare, [], hnone⟩ h
  exact ⟨sorts_of_lists hlists, hreads.candidates_eq, hreads.length_eq,
    fun id => hreads.contains_eq id, fun id => hreads.rank?_eq hlists id⟩

/-- A gaining position on the long side, with this score. -/
def sampleCandidate (number : Nat) (score : Decimal) : Candidate :=
  ⟨⟨1⟩, ⟨number⟩, ⟨1⟩, .long, .one, ⟨5⟩, score, .epoch⟩

/-- Three longs are open. -/
def sampleLedger : Ledger :=
  (((Ledger.startingAt 1).run ([1, 2, 3].map fun owner =>
    .openPosition (Ledger.sampleOrder ⟨owner⟩ .long .one) Ledger.sampleSchedule .epoch)).map
      (·.2)).toOption.getD .empty

/-- Ties, a new score and the old one again, a return, and an execution that finds one candidate
closed. -/
def sampleOperations : List Operation :=
  [.configure ⟨1⟩ .standard,
    .update (sampleCandidate 1 (.ofUInt32 5)),
    .update (sampleCandidate 2 ⟨false, 50, 1, by decide, by decide⟩),
    .update (sampleCandidate 3 (.ofUInt32 7)),
    .update (sampleCandidate 1 (.ofUInt32 4)),
    .update (sampleCandidate 1 ⟨false, 500, 2, by decide, by decide⟩),
    .update { sampleCandidate 2 .one with unrealizedPnl := .zero },
    .update (sampleCandidate 4 (.ofUInt32 6)),
    .update (sampleCandidate 2 (.ofUInt32 5)),
    .remove ⟨⟨1⟩, .long⟩ ⟨9⟩,
    .execute sampleLedger Ledger.sampleSchedule ⟨⟨1⟩, ⟨9⟩, .short, .one, .ofUInt32 100⟩ .epoch]

/-- The third is deleveraged and the fourth is not open.  The first scored less for a while and kept
its arrival; the second came back and arrived anew. -/
theorem run_sorts_ties :
    ∃ replies q, (empty 5).run sampleOperations = .ok (replies, q) ∧
      q.eventCount ⟨1⟩ = 1 ∧
      (q.candidates ⟨⟨1⟩, .long⟩).map (·.position) = [⟨1⟩, ⟨2⟩] ∧
      q.Sorts ⟨⟨1⟩, .long⟩
        (Keeping.arrivals.followAll ⟨⟨1⟩, .long⟩ [] sampleOperations replies) ∧
      q.Agrees ⟨⟨1⟩, .long⟩
        (Keeping.ladder.followAll ⟨⟨1⟩, .long⟩ .empty sampleOperations replies) := by
  obtain ⟨⟨replies, q⟩, h, htest⟩ := exists_of_succeedsWith
    (fun r : List (Except DeleverageError Reply) × DeleverageQueue => r.2.eventCount ⟨1⟩ = 1 ∧
      (r.2.candidates ⟨⟨1⟩, .long⟩).map (·.position) = [⟨1⟩, ⟨2⟩])
    (x := (empty 5).run sampleOperations) (by decide +kernel)
  obtain ⟨hcount, hleft⟩ := of_decide_eq_true htest
  exact ⟨replies, q, h, hcount, hleft, run_sorts h ⟨⟨1⟩, .long⟩⟩

end DeleverageQueue

end Clearing

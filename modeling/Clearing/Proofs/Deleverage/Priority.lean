import Clearing.Proofs.Deleverage.Arrivals
import Clearing.Proofs.Deleverage.Execution
import Clearing.Proofs.Deleverage.Turns
import Clearing.Proofs.Ledger.Underflow

/-!
Who is deleveraged first, and how far.

The picks of a walk are the candidates in rank order, and it lists the first of them.  So an
execution takes its candidates in turn (`TakesInTurn`), and the entries, the lanes and the terms
that it has no business with stay as they are.
-/

namespace Clearing

open Decimal

namespace DeleverageQueue

/-- The candidates that an execution may turn to: in rank order those whose position is open, as
many as its terms allow. -/
def eligible (q : DeleverageQueue) (l : Ledger) (shortfall : Shortfall) : List Candidate :=
  match q.terms? shortfall.market with
  | none => []
  | some terms =>
    ((q.candidates shortfall.lane).filter fun c => l.contains c.position).take
      terms.maxPositions.toNat

/-- What an execution does, and what it leaves alone: the candidates it may turn to are taken in
turn and closed, but for the last, who may be reduced; whoever was taken and whoever was not open
leaves the lane, and nothing else is changed in the queue or the ledger's entries. -/
structure TakesInTurn (q : DeleverageQueue) (l : Ledger) (shortfall : Shortfall)
    (coverage : Coverage) (left : DeleverageQueue) (next : Ledger) : Prop where
  taken : coverage.deleveraged ≠ []
  inTurn : coverage.deleveraged.map (fun d => (d.position, d.owner)) <+:
    (q.eligible l shortfall).map fun c => (c.position, c.owner)
  ranks : coverage.deleveraged.map (·.rank) = List.range' 1 coverage.deleveraged.length
  whole : ∀ d ∈ coverage.deleveraged.dropLast, d.fullyClosed = true ∧
    next.position? d.position = none ∧
    ∃ p, l.position? d.position = some p ∧ d.sizeClosed = p.size
  untouched : ∀ id, (∀ d ∈ coverage.deleveraged, d.position ≠ id) →
    next.entries.get? id = l.entries.get? id
  lane : left.ranking shortfall.lane =
    { q.ranking shortfall.lane with
      order := (q.ranking shortfall.lane).order.filter fun e =>
        l.contains e.candidate.position ∧
          ∀ d ∈ coverage.deleveraged, d.position ≠ e.candidate.position }
  elsewhere : ∀ other, other ≠ shortfall.lane → left.ranking other = q.ranking other
  terms : left.terms = q.terms

theorem map_picks_eq_eligible {q : DeleverageQueue} {l : Ledger} {shortfall : Shortfall}
    {terms : DeleverageTerms} (hterms : q.terms? shortfall.market = some terms) :
    (q.picks l terms shortfall.lane).map (·.2) = q.eligible l shortfall := by
  rw [map_picks, eligible, hterms]

/-- The ranks of the picks count from one. -/
theorem map_fst_picks (q : DeleverageQueue) (l : Ledger) (terms : DeleverageTerms) (lane : Lane) :
    (q.picks l terms lane).map (·.1) = List.range' 1 (q.picks l terms lane).length := by
  unfold picks
  rw [List.map_fst_zip (by rw [List.length_range']), List.length_zip, List.length_range',
    Nat.min_self]

theorem eq_range'_of_isPrefix {ranks : List Nat} {first count : Nat}
    (h : ranks <+: List.range' first count) : ranks = List.range' first ranks.length := by
  have hle := h.length_le
  rw [List.length_range'] at hle
  have hfirst : List.range' first ranks.length <+: List.range' first count :=
    ⟨_, by rw [List.range'_append_1, Nat.add_sub_of_le hle]⟩
  exact (List.prefix_of_prefix_length_le h hfirst (by rw [List.length_range'])).eq_of_length
    (by rw [List.length_range'])

/-- A candidate leaves the lane if it was taken or its position is not open. -/
theorem ranking_execute {q left : DeleverageQueue} {l next : Ledger} {schedule : MarginSchedule}
    {shortfall : Shortfall} {now : Instant} {coverage : Coverage}
    (h : q.execute l schedule shortfall now = .ok (coverage, left, next)) (other : Lane) :
    left.ranking other =
      if other = shortfall.lane then
        { q.ranking other with
          order := (q.ranking other).order.filter fun e =>
            l.contains e.candidate.position ∧
              ∀ d ∈ coverage.deleveraged, d.position ≠ e.candidate.position }
      else q.ranking other := by
  obtain ⟨terms, walk, -, -, -, -, hdeleveraged, hrankings, -⟩ := execute_eq_ok h
  rw [ranking_congr hrankings, ranking_foldl_remove, ← hdeleveraged]
  by_cases hlane : other = shortfall.lane
  · rw [if_neg (not_not.2 hlane.symm), if_pos hlane, Ranking.foldl_remove]
    congr 1
    refine List.filter_congr fun e he => decide_eq_decide.2 ?_
    have hlisted : e.candidate ∈ q.candidates shortfall.lane :=
      hlane ▸ List.mem_map_of_mem he
    have hstale : e.candidate.position ∈ (q.stale l shortfall.lane).map (·.position) ↔
        ¬l.contains e.candidate.position = true := by
      unfold stale
      simp only [List.mem_map, List.mem_filter, Bool.not_eq_true', Bool.not_eq_true]
      exact ⟨fun ⟨c, ⟨_, hc⟩, hposition⟩ => hposition ▸ hc, fun hc => ⟨_, ⟨hlisted, hc⟩, rfl⟩⟩
    rw [List.mem_append, not_or, hstale, not_not, and_comm]
    simp only [List.mem_map, not_exists, not_and]
  · rw [if_pos (Ne.symm hlane), if_neg hlane]

/-- **Who is deleveraged first, and how far.**  Over every ledger and queue that runs lead to, an
execution that succeeds takes its candidates in turn. -/
theorem execute_takesInTurn {first : Nat} {ops : List Ledger.Operation}
    {replies : List (Except Ledger.Refusal Ledger.Reply)} {l : Ledger}
    (hl : (Ledger.startingAt first).run ops = .ok (replies, l))
    {maxHistory : Nat} {queueOps : List Operation}
    {queueReplies : List (Except DeleverageError Reply)} {q : DeleverageQueue}
    (hq : (empty maxHistory).run queueOps = .ok (queueReplies, q))
    {schedule : MarginSchedule} {shortfall : Shortfall} {now : Instant} {coverage : Coverage}
    {left : DeleverageQueue} {next : Ledger}
    (hx : q.execute l schedule shortfall now = .ok (coverage, left, next)) :
    q.TakesInTurn l shortfall coverage left next := by
  have hindexed := ((Ledger.Sound.startingAt first).run hl).indexed
  have honce := (sorts_of_lists (run_lists hq shortfall.lane)).once
  obtain ⟨terms, walk, hterms, hsize, hpicks, hadds, hnext, -⟩ := execute_adds hindexed honce hx
  refine ⟨?_, ?_, ?_, fun d hd => ?_, ?_, ?_, fun other hother => ?_, ?_⟩
  · obtain ⟨pick, picks, hcons⟩ := List.exists_cons_of_ne_nil hpicks
    exact (hcons ▸ hadds).ne_nil hsize
  · have hturns := hadds.inTurn.map (·.2)
    rw [List.map_map, List.map_map] at hturns
    rw [← map_picks_eq_eligible hterms, List.map_map]
    exact hturns
  · have hranks := hadds.inTurn.map (·.1)
    rw [List.map_map, List.map_map] at hranks
    have hpicked := map_fst_picks q l terms shortfall.lane
    exact (eq_range'_of_isPrefix (hpicked ▸ hranks)).trans (by rw [List.length_map])
  · obtain ⟨hfully, hheld⟩ := hadds.whole d hd
    exact ⟨hfully, (execute_executes hindexed hx).closed d (List.dropLast_subset _ hd) hfully,
      hheld⟩
  · rw [hnext]
    exact hadds.untouched
  · rw [ranking_execute hx, if_pos rfl]
  · rw [ranking_execute hx, if_neg hother]
  · exact terms_execute hx

/-- Four longs of these sizes are opened. -/
def sampleOpenings : List Ledger.Operation :=
  [3, 2, 4, 1].map fun size =>
    .openPosition (Ledger.sampleOrder ⟨1⟩ .long (.ofUInt32 size)) Ledger.sampleSchedule .epoch

/-- The second ranks before the first; two candidates have no open position, and one of them ranks
before everyone.  At most three may be touched. -/
def sampleScores : List Operation :=
  .configure ⟨1⟩ { DeleverageTerms.standard with maxPositions := 3 } ::
    [(4, 2), (1, 6), (3, 4), (8, 5), (2, 7), (9, 8)].map fun (number, score) =>
      .update (sampleCandidate number (.ofUInt32 score))

/-- Six are missing: the second and the first are closed, the third is reduced, and the fourth keeps
its place. -/
theorem execute_takesInTurn_reduced :
    ∃ replies l queueReplies q coverage left next,
      (Ledger.startingAt 1).run sampleOpenings = .ok (replies, l) ∧
      (empty 1).run sampleScores = .ok (queueReplies, q) ∧
      q.execute l Ledger.sampleSchedule ⟨⟨1⟩, ⟨7⟩, .short, .ofUInt32 6, .ofUInt32 100⟩ .epoch
        = .ok (coverage, left, next) ∧
      coverage.deleveraged.map (fun d => (d.position.val, d.fullyClosed))
        = [(2, true), (1, true), (3, false)] ∧
      (left.candidates ⟨⟨1⟩, .long⟩).map (·.position) = [⟨4⟩] ∧
      q.TakesInTurn l ⟨⟨1⟩, ⟨7⟩, .short, .ofUInt32 6, .ofUInt32 100⟩ coverage left next := by
  obtain ⟨⟨replies, l⟩, hl, h⟩ := exists_of_succeedsWith
    (fun r => succeedsWith (fun s => succeedsWith
      (fun x => x.1.deleveraged.map (fun d => (d.position.val, d.fullyClosed))
          = [(2, true), (1, true), (3, false)] ∧
        (x.2.1.candidates ⟨⟨1⟩, .long⟩).map (·.position) = [⟨4⟩])
      (s.2.execute r.2 Ledger.sampleSchedule
        ⟨⟨1⟩, ⟨7⟩, .short, .ofUInt32 6, .ofUInt32 100⟩ .epoch))
      ((empty 1).run sampleScores))
    (x := (Ledger.startingAt 1).run sampleOpenings) (by decide +kernel)
  obtain ⟨⟨queueReplies, q⟩, hq, h⟩ := exists_of_succeedsWith _ h
  obtain ⟨⟨coverage, left, next⟩, hx, htest⟩ := exists_of_succeedsWith _ h
  obtain ⟨hdeleveraged, hleft⟩ := of_decide_eq_true htest
  exact ⟨replies, l, queueReplies, q, coverage, left, next, hl, hq, hx, hdeleveraged, hleft,
    execute_takesInTurn hl hq hx⟩

end DeleverageQueue

end Clearing

import Clearing.Proofs.Deleverage.Arrivals
import Clearing.Proofs.Deleverage.Turns
import Clearing.Proofs.Ledger.Underflow

/-!
How much of a shortfall an execution covers.

`execute_accounts` says what is taken and what the total of it comes to, with the roundings of both
accounts.  So an execution covers what it should, and reports it, just where the roundings cancel
(`execute_covers_iff`).  Where they do not, an execution may close all it was asked to and report
that it did not (`execute_misreports`), or close more (`execute_overshoots`).
-/

namespace Clearing

open Decimal

namespace DeleverageQueue

/-- The open positions that an execution may turn to: in rank order, as many as its terms allow. -/
def within (q : DeleverageQueue) (l : Ledger) (shortfall : Shortfall) : List Position :=
  match q.terms? shortfall.market with
  | none => []
  | some terms =>
    let live := (q.candidates shortfall.lane).filter fun c => l.contains c.position
    (live.take terms.maxPositions.toNat).filterMap fun c => l.position? c.position

theorem exists_of_mem_within {q : DeleverageQueue} {l : Ledger} {shortfall : Shortfall}
    {p : Position} (h : p ∈ q.within l shortfall) : ∃ id, l.position? id = some p := by
  unfold within at h
  split at h
  · cases h
  · obtain ⟨c, -, hc⟩ := List.mem_filterMap.1 h
    exact ⟨c.position, hc⟩

/-- The sizes of these positions. -/
def sizesWithin (q : DeleverageQueue) (l : Ledger) (shortfall : Shortfall) : List Int :=
  (q.within l shortfall).map (·.size.units)

theorem sizes_of_open {l : Ledger} {cs : List Candidate}
    (hopen : ∀ c ∈ cs, l.contains c.position = true) :
    (cs.filterMap fun c => l.position? c.position).map (·.size.units)
      = cs.map fun c => sizeOf l c.position := by
  induction cs with
  | nil => rfl
  | cons c rest ih =>
    obtain ⟨p, hp⟩ := exists_of_contains (hopen c (List.mem_cons_self ..))
    have hrest := ih fun c' hc' => hopen c' (List.mem_cons_of_mem _ hc')
    simp [sizeOf, hp, hrest]

/-- The picks of an execution stand for the positions it may turn to. -/
theorem sizes_of_picks {q : DeleverageQueue} {l : Ledger} {shortfall : Shortfall}
    {terms : DeleverageTerms} (hterms : q.terms? shortfall.market = some terms) :
    sizesOf l (q.picks l terms shortfall.lane) = q.sizesWithin l shortfall := by
  unfold sizesWithin within sizesOf
  rw [hterms]
  dsimp only
  rw [sizes_of_open fun c hc => (List.mem_filter.1 (List.mem_of_mem_take hc)).2, ← map_picks,
    List.map_map]
  rfl

/-- What the two accounts of an execution come to. -/
theorem execute_accounts {q left : DeleverageQueue} {l next : Ledger} {schedule : MarginSchedule}
    {shortfall : Shortfall} {now : Instant} {coverage : Coverage} (hindexed : l.WellIndexed)
    (honce : ((q.candidates shortfall.lane).map (·.position)).Nodup)
    (h : q.execute l schedule shortfall now = .ok (coverage, left, next)) :
    taken coverage.deleveraged = amounts shortfall.size.units (q.sizesWithin l shortfall) ∧
      runningTotal 0 (taken coverage.deleveraged) = some coverage.totalClosed.units ∧
      (coverage.fullyCovered = true ↔ shortfall.size.units ≤ coverage.totalClosed.units) ∧
      0 < shortfall.size.units := by
  obtain ⟨terms, walk, hterms, hsize, -, hadds, -, hclosed, hcovered⟩ :=
    execute_adds hindexed honce h
  rw [hclosed]
  refine ⟨?_, ?_, hcovered, hsize⟩
  · rw [← sizes_of_picks hterms]
    exact hadds.took
  · have htotal := hadds.total
    rwa [show (Walk.start l shortfall).closed.units = 0 from units_zero] at htotal

/-- What an execution should do: close what is missing, or all it may turn to if that is less, say
how much that was, and say that nothing is missing just where nothing is. -/
structure Covers (q : DeleverageQueue) (l : Ledger) (shortfall : Shortfall) (coverage : Coverage) :
    Prop where
  closed : (taken coverage.deleveraged).sum
    = min shortfall.size.units (q.sizesWithin l shortfall).sum
  total : coverage.totalClosed.units = (taken coverage.deleveraged).sum
  full : coverage.fullyCovered = true ↔ (taken coverage.deleveraged).sum = shortfall.size.units

/-- **When an execution covers what it should.**  Over every ledger and queue that runs lead to, an
execution that succeeds closes what is missing or all it may turn to, and reports it, just where
the roundings of its two accounts cancel. -/
theorem execute_covers_iff {first : Nat} {ops : List Ledger.Operation}
    {replies : List (Except Ledger.Refusal Ledger.Reply)} {l : Ledger}
    (hl : (Ledger.startingAt first).run ops = .ok (replies, l))
    {maxHistory : Nat} {queueOps : List Operation}
    {queueReplies : List (Except DeleverageError Reply)} {q : DeleverageQueue}
    (hq : (empty maxHistory).run queueOps = .ok (queueReplies, q))
    {schedule : MarginSchedule} {shortfall : Shortfall} {now : Instant} {coverage : Coverage}
    {left : DeleverageQueue} {next : Ledger}
    (hx : q.execute l schedule shortfall now = .ok (coverage, left, next)) :
    q.Covers l shortfall coverage ↔
      Balances shortfall.size.units (q.sizesWithin l shortfall) := by
  have hsound := (Ledger.Sound.startingAt first).run hl
  have honce := (sorts_of_lists (run_lists hq shortfall.lane)).once
  obtain ⟨htaken, htotal, hfull, hsize⟩ := execute_accounts hsound.indexed honce hx
  have hsizes : ∀ s ∈ q.sizesWithin l shortfall, 0 ≤ s := by
    intro s hs
    obtain ⟨p, hp, rfl⟩ := List.mem_map.1 hs
    obtain ⟨id, hheld⟩ := exists_of_mem_within hp
    exact Int.le_of_lt (zero_lt_iff.1 (hsound.sized id p hheld))
  have hsum := amounts_sum (Int.le_of_lt hsize) hsizes
  rw [← htaken] at hsum
  unfold Balances
  rw [← htaken, htotal, Option.some.injEq]
  constructor
  · rintro ⟨hclosed, htotalled, -⟩
    exact ⟨htotalled, by omega⟩
  · rintro ⟨htotalled, hslip⟩
    have hclosed : (taken coverage.deleveraged).sum
        = min shortfall.size.units (q.sizesWithin l shortfall).sum := by omega
    refine ⟨hclosed, htotalled, ?_⟩
    rw [hfull, htotalled]
    omega

/-! ### Samples -/

/-- Reports of the positions in a market as they stand. -/
def reports (l : Ledger) (market : MarketId) (now : Instant) : List Operation :=
  (l.positionsIn market).filterMap fun p =>
    match p.notice now with
    | .ok (.gaining c) => some (.update c)
    | .ok (.left market id side) => some (.remove ⟨market, side⟩ id)
    | .error _ => none

/-- Three shorts of these sizes are opened, and gain at the price they are marked at. -/
def sampleShorts (a b c : Decimal) : List Ledger.Operation :=
  [.openPosition (Ledger.sampleOrder ⟨1⟩ .short a) Ledger.sampleSchedule .epoch,
    .openPosition (Ledger.sampleOrder ⟨2⟩ .short b) Ledger.sampleSchedule .epoch,
    .openPosition (Ledger.sampleOrder ⟨3⟩ .short c) Ledger.sampleSchedule .epoch,
    .refreshMarket ⟨1⟩ (.ofUInt32 90) .epoch]

/-- The queue is told of them. -/
def sampleReports (l : Ledger) : List Operation :=
  .configure ⟨1⟩ .standard :: reports l ⟨1⟩ .epoch

/-- A long of this size could not be liquidated at that price. -/
def sampleShortfall (size : Decimal) : Shortfall :=
  ⟨⟨1⟩, ⟨9⟩, .long, size, .ofUInt32 90⟩

/-- Three shorts of these sizes cover a shortfall, and what comes of it passes a test. -/
def sampleCovers (a b c size : Decimal) (test : Ledger → DeleverageQueue → Coverage → Bool) :
    Bool :=
  succeedsWith (fun r => succeedsWith (fun s => succeedsWith (fun x => test r.2 s.2 x.1)
      (s.2.execute r.2 Ledger.sampleSchedule (sampleShortfall size) .epoch))
    ((empty 1).run (sampleReports r.2))) ((Ledger.startingAt 1).run (sampleShorts a b c))

theorem exists_of_sampleCovers (a b c size : Decimal)
    (test : Ledger → DeleverageQueue → Coverage → Bool)
    (h : sampleCovers a b c size test = true) :
    ∃ replies l queueReplies q coverage left next,
      (Ledger.startingAt 1).run (sampleShorts a b c) = .ok (replies, l) ∧
      (empty 1).run (sampleReports l) = .ok (queueReplies, q) ∧
      q.execute l Ledger.sampleSchedule (sampleShortfall size) .epoch
        = .ok (coverage, left, next) ∧
      test l q coverage = true := by
  obtain ⟨⟨replies, l⟩, hl, h⟩ := exists_of_succeedsWith _ h
  obtain ⟨⟨queueReplies, q⟩, hq, h⟩ := exists_of_succeedsWith _ h
  obtain ⟨⟨coverage, left, next⟩, hx, h⟩ := exists_of_succeedsWith _ h
  exact ⟨replies, l, queueReplies, q, coverage, left, next, hl, hq, hx, h⟩

/-- Whole sizes cover a whole shortfall. -/
theorem execute_covers_whole :
    ∃ replies l queueReplies q coverage left next,
      (Ledger.startingAt 1).run (sampleShorts (.ofUInt32 4) (.ofUInt32 4) (.ofUInt32 2))
        = .ok (replies, l) ∧
      (empty 1).run (sampleReports l) = .ok (queueReplies, q) ∧
      q.execute l Ledger.sampleSchedule (sampleShortfall (.ofUInt32 9)) .epoch
        = .ok (coverage, left, next) ∧
      coverage.deleveraged.length = 3 ∧
      q.Covers l (sampleShortfall (.ofUInt32 9)) coverage := by
  obtain ⟨replies, l, queueReplies, q, coverage, left, next, hl, hq, hx, htest⟩ :=
    exists_of_sampleCovers (.ofUInt32 4) (.ofUInt32 4) (.ofUInt32 2) (.ofUInt32 9)
      (fun l q coverage => coverage.deleveraged.length = 3 ∧
        Balances (Decimal.ofUInt32 9).units
          (q.sizesWithin l (sampleShortfall (.ofUInt32 9))))
      (by decide +kernel)
  obtain ⟨hlength, hbalances⟩ := of_decide_eq_true htest
  exact ⟨replies, l, queueReplies, q, coverage, left, next, hl, hq, hx, hlength,
    (execute_covers_iff hl hq hx).2 hbalances⟩

/-- Seven, and three units of the last place. -/
def sevenAndSome : Decimal :=
  (ofParts? false 70000000000000000000000000003 28).getD .zero

/-- What is missing after the first short is rounded up, so more is closed than was missing. -/
theorem execute_overshoots :
    ∃ replies l queueReplies q coverage left next,
      (Ledger.startingAt 1).run (sampleShorts sevenAndSome (.ofUInt32 7) (.ofUInt32 7))
        = .ok (replies, l) ∧
      (empty 1).run (sampleReports l) = .ok (queueReplies, q) ∧
      q.execute l Ledger.sampleSchedule (sampleShortfall (.ofUInt32 20)) .epoch
        = .ok (coverage, left, next) ∧
      (Decimal.ofUInt32 20).units < (taken coverage.deleveraged).sum ∧
      ¬ q.Covers l (sampleShortfall (.ofUInt32 20)) coverage := by
  obtain ⟨replies, l, queueReplies, q, coverage, left, next, hl, hq, hx, htest⟩ :=
    exists_of_sampleCovers sevenAndSome (.ofUInt32 7) (.ofUInt32 7) (.ofUInt32 20)
      (fun _ _ coverage => (Decimal.ofUInt32 20).units < (taken coverage.deleveraged).sum)
      (by decide +kernel)
  have hmore := of_decide_eq_true htest
  refine ⟨replies, l, queueReplies, q, coverage, left, next, hl, hq, hx, hmore, ?_⟩
  intro hcovers
  rw [hcovers.closed] at hmore
  exact absurd hmore (Int.not_lt.2 (Int.min_le_left _ _))

/-- Four, and five units of the last place. -/
def fourAndSome : Decimal :=
  (ofParts? false 40000000000000000000000000005 28).getD .zero

/-- Ten, less one in the last place that it can have. -/
def almostTen : Decimal :=
  (ofParts? false 9999999999999999999999999999 27).getD .zero

/-- Exactly what was missing is closed.  The total of it loses half a place twice, and so the
execution reports that it closed less and that something is still missing. -/
theorem execute_misreports :
    ∃ replies l queueReplies q coverage left next,
      (Ledger.startingAt 1).run (sampleShorts fourAndSome (.ofUInt32 4) (.ofUInt32 2))
        = .ok (replies, l) ∧
      (empty 1).run (sampleReports l) = .ok (queueReplies, q) ∧
      q.execute l Ledger.sampleSchedule (sampleShortfall almostTen) .epoch
        = .ok (coverage, left, next) ∧
      (taken coverage.deleveraged).sum = almostTen.units ∧
      coverage.totalClosed.units < almostTen.units ∧ coverage.fullyCovered = false ∧
      ¬ q.Covers l (sampleShortfall almostTen) coverage := by
  obtain ⟨replies, l, queueReplies, q, coverage, left, next, hl, hq, hx, htest⟩ :=
    exists_of_sampleCovers fourAndSome (.ofUInt32 4) (.ofUInt32 2) almostTen
      (fun _ _ coverage => (taken coverage.deleveraged).sum = almostTen.units ∧
        coverage.totalClosed.units < almostTen.units ∧ coverage.fullyCovered = false)
      (by decide +kernel)
  obtain ⟨hclosed, htotal, hpartial⟩ := of_decide_eq_true htest
  refine ⟨replies, l, queueReplies, q, coverage, left, next, hl, hq, hx, hclosed, htotal, hpartial,
    ?_⟩
  intro hcovers
  rw [hcovers.total, hclosed] at htotal
  exact Int.lt_irrefl _ htotal

end DeleverageQueue

end Clearing

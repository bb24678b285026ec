import Clearing.Proofs.Deleverage.Mirror
import Clearing.Proofs.House.Moves
import Clearing.Proofs.Ledger.Runs

/-!
Who is in the deleveraging queue of a house.

A house keeps the queue in step with the ledger by reading the notices of every call that posts
some.  A deleveraging drops its notices and takes whom it touched out of the queue by hand, so a
position that it reduced is missing until it is reported again.  Nothing else is missing, and
nobody is in the queue who should not be: `run_faithful` says so of every house that any run of
calls can reach.

The invariant is that the queue mirrors the ledger (`Mirrors`), with those left out whose last
change was such a reduction.  Each of the ways in which a house moves keeps it.
-/

namespace Clearing

open Decimal

namespace House

/-! ### The last touch -/

/-- Whom the calls of a run touch, in turn; a refused call touches nobody. -/
def touches : House → List Call → List Touch
  | _, [] => []
  | h, call :: calls =>
    match h.answer call with
    | .ok (reply, next) => h.touchedBy call reply ++ touches next calls
    | .error (.refused _) => touches h calls
    | .error (.stopped _) => []

/-- The latest of the touches that concern a position. -/
def lastTouch? (ts : List Touch) (id : PositionId) : Option Touch :=
  ts.reverse.find? (·.position = id)

/-- The last change of a position was a reduction that was not reported. -/
def LeftOut (ts : List Touch) (id : PositionId) : Prop :=
  lastTouch? ts id = some (.reduced id)

theorem touches_of_ok {h next : House} {call : Call} {reply : Reply}
    (hanswer : h.answer call = .ok (reply, next)) (calls : List Call) :
    h.touches (call :: calls) = h.touchedBy call reply ++ next.touches calls := by
  simp only [touches, hanswer]

theorem touches_of_refused {h : House} {call : Call} {cause : HouseError}
    (hanswer : h.answer call = .error (.refused cause)) (calls : List Call) :
    h.touches (call :: calls) = h.touches calls := by
  simp only [touches, hanswer]

theorem lastTouch?_append (ts us : List Touch) (id : PositionId) :
    lastTouch? (ts ++ us) id = (lastTouch? us id).or (lastTouch? ts id) := by
  unfold lastTouch?
  rw [List.reverse_append, List.find?_append]

/-- Where all touches are of one kind, the last one of a position is of that kind. -/
theorem lastTouch?_map {kind : PositionId → Touch} (hkind : ∀ id, (kind id).position = id)
    (ids : List PositionId) (id : PositionId) :
    lastTouch? (ids.map kind) id = if id ∈ ids then some (kind id) else none := by
  induction ids with
  | nil => rfl
  | cons first rest ih =>
    rw [List.map_cons, ← List.singleton_append, lastTouch?_append, ih]
    by_cases hrest : id ∈ rest
    · simp [hrest]
    · by_cases hfirst : first = id
      · subst hfirst
        simp [hrest, lastTouch?, hkind]
      · simp [hrest, lastTouch?, hkind, hfirst, Ne.symm hfirst]

theorem leftOut_reported (ts : List Touch) (ids : List PositionId) (id : PositionId) :
    LeftOut (ts ++ ids.map .reported) id ↔ LeftOut ts id ∧ id ∉ ids := by
  unfold LeftOut
  rw [lastTouch?_append, lastTouch?_map fun _ => rfl]
  by_cases h : id ∈ ids <;> simp [h]

theorem leftOut_reduced (ts : List Touch) (ids : List PositionId) (id : PositionId) :
    LeftOut (ts ++ ids.map .reduced) id ↔ LeftOut ts id ∨ id ∈ ids := by
  unfold LeftOut
  rw [lastTouch?_append, lastTouch?_map fun _ => rfl]
  by_cases h : id ∈ ids <;> simp [h]

/-! ### What every move keeps -/

/-- The queue mirrors a ledger whose indices are in order. -/
structure Synced (h : House) (ts : List Touch) : Prop where
  indexed : h.ledger.WellIndexed
  mirrors : Mirrors h.ledger h.queue (LeftOut ts)

variable {h next : House} {ts us : List Touch}

theorem Synced.indexed_moves (hsynced : h.Synced ts) (hmoves : Moves h next us) :
    next.ledger.WellIndexed := by
  have hindexed := hsynced.indexed
  cases hmoves with
  | idle ledger _ =>
    rw [ledger]
    exact hindexed
  | opened opens _ => exact hindexed.opens opens
  | modified held same amends _ =>
    exact hindexed.of_sameIndices (amends.sameIndices hindexed.stored held same)
  | closed closes _ => exact hindexed.closes closes
  | refreshed marked ledger _ =>
    rw [ledger]
    exact hindexed.of_sameIndices
      (Ledger.refreshMarket_restates hindexed.stored marked).sameIndices
  | funded booked _ =>
    exact hindexed.of_sameIndices (Ledger.applyFunding_restates booked).sameIndices
  | deleveraged executed =>
    exact Ledger.changes_invariant Ledger.WellIndexed.change hindexed
      (Ledger.execute_changes executed)

theorem Synced.mirrors_moves (hsynced : h.Synced ts) (hmoves : Moves h next us) :
    Mirrors next.ledger next.queue (LeftOut (ts ++ us)) := by
  obtain ⟨hindexed, hmirrors⟩ := hsynced
  have hstored := hindexed.stored
  cases hmoves with
  | idle ledger rankings =>
    rw [List.append_nil]
    exact hmirrors.of_outlook (fun id => by rw [ledger]) rankings
  | @opened p now notice opens queue =>
    rw [queue]
    refine (hmirrors.report (fun old hold => ?_) opens.position? opens.notified).congr fun id => ?_
    · rw [hindexed.position?_opened opens] at hold
      cases hold
    · simpa using leftOut_reported ts [p.id] id
  | @modified id current p mark now notice held same amends queue =>
    have hid : p.id = id := (Position.id_eq_of_identity same).trans (hstored id current held)
    rw [queue]
    refine (hmirrors.report (fun old hold => ?_) amends.position? amends.notified).congr
      fun other => ?_
    · rw [hid, held] at hold
      cases hold
      exact (Position.lane_eq_of_identity same).symm
    · rw [hid]
      simpa using leftOut_reported ts [id] other
  | @closed id p now closes queue =>
    rw [queue, List.append_nil, ← hstored id p closes.held]
    exact hmirrors.close (hstored.position?_id closes.held) closes.position?
  | refreshed marked ledger queue =>
    rw [ledger, queue]
    exact (hmirrors.refreshMarket hstored marked).congr fun id => leftOut_reported ts _ id
  | funded booked queue =>
    rw [queue, List.append_nil]
    exact hmirrors.applyFunding booked
  | deleveraged executed =>
    refine (hmirrors.execute (DeleverageQueue.execute_executes hindexed executed)).congr
      fun id => ?_
    rw [leftOut_reduced]
    refine or_congr_right ?_
    unfold reductions
    simp [and_assoc]

theorem Synced.moves (hsynced : h.Synced ts) (hmoves : Moves h next us) :
    next.Synced (ts ++ us) :=
  ⟨hsynced.indexed_moves hmoves, hsynced.mirrors_moves hmoves⟩

/-! ### Runs -/

/-- A house before the first call: without markets, or as a setup describes it. -/
inductive Founded : House → Prop
  | empty (limits : Limits) (roles : Roles) (prices : PriceBook) (safeguards : Safeguards) :
    Founded (.empty limits roles prices safeguards)
  | ofSetup {setup : Setup} {roles : Roles} {prices : PriceBook} {safeguards : Safeguards}
      {h : House} (built : House.ofSetup setup roles prices safeguards = .ok h) : Founded h

theorem install_eq_ok {m : Listing} (hx : h.install m = .ok next) :
    next.ledger = h.ledger ∧ next.queue.rankings = h.queue.rankings := by
  unfold install at hx
  simp only [bind_eq_ok, mapError_eq_ok, pure_eq_ok] at hx
  obtain ⟨⟨_, schedule⟩, -, ⟨_, queue⟩, hqueue, ⟨_, funding⟩, -, rfl⟩ := hx
  exact ⟨rfl, DeleverageQueue.rankings_configure hqueue⟩

/-- A new house has no positions and no candidates. -/
theorem Founded.unused (hfounded : h.Founded) :
    h.ledger = .empty ∧ h.queue.rankings = .empty := by
  cases hfounded with
  | empty => exact ⟨rfl, rfl⟩
  | ofSetup built =>
    unfold House.ofSetup at built
    rw [bind_eq_ok] at built
    obtain ⟨-, -, built⟩ := built
    refine foldlM_invariant (P := fun h => h.ledger = .empty ∧ h.queue.rankings = .empty) ?_
      ⟨rfl, rfl⟩ built
    intro h m _ next hunused hinstall
    obtain ⟨hledger, hrankings⟩ := install_eq_ok hinstall
    exact ⟨hledger.trans hunused.1, hrankings.trans hunused.2⟩

theorem Founded.synced (hfounded : h.Founded) : h.Synced [] := by
  obtain ⟨hledger, hrankings⟩ := hfounded.unused
  have hnobody : ∀ lane, h.queue.candidates lane = [] := by
    intro lane
    unfold DeleverageQueue.candidates DeleverageQueue.ranking
    rw [hrankings]
    rfl
  refine ⟨?_, ⟨fun lane => ?_, fun lane c hc => ?_, fun id p hp => ?_⟩⟩
  · rw [hledger]
    exact .startingAt 1
  · rw [hnobody]
    exact List.nodup_nil
  · rw [hnobody] at hc
    cases hc
  · rw [hledger] at hp
    cases hp

theorem Synced.run {calls : List Call} {last : House} (hsynced : h.Synced ts)
    (hrun : h.run calls = .ok last) : last.Synced (ts ++ h.touches calls) := by
  induction calls generalizing h ts with
  | nil =>
    cases hrun
    rw [touches, List.append_nil]
    exact hsynced
  | cons call calls ih =>
    unfold House.run at hrun
    rw [List.foldlM_cons, bind_eq_ok] at hrun
    obtain ⟨mid, hmid, hrun⟩ := hrun
    rw [map_eq_ok] at hmid
    obtain ⟨⟨answered, mid'⟩, hperform, rfl⟩ := hmid
    rcases orStay_eq_ok.1 hperform with ⟨reply, -, hanswer⟩ | ⟨cause, -, hanswer, rfl⟩
    · rw [touches_of_ok hanswer, ← List.append_assoc]
      exact ih (hsynced.moves (answer_moves hanswer)) hrun
    · rw [touches_of_refused hanswer]
      exact ih hsynced hrun

/-- The queue shows what the ledger holds, and executions keep to their lane. -/
structure Faithful (h : House) (ts : List Touch) : Prop where
  contains : ∀ lane id, h.queue.contains lane id = true ↔
    ∃ p, h.ledger.position? id = some p ∧ p.lane = lane ∧ zero < p.unrealizedPnl ∧
      ¬ LeftOut ts id
  once : ∀ lane, ((h.queue.candidates lane).map (·.position)).Nodup
  shows : ∀ lane, ∀ c ∈ h.queue.candidates lane,
    ∃ p, h.ledger.position? c.position = some p ∧ p.lane = lane ∧ c.Shows p
  noStale : ∀ lane, h.queue.stale h.ledger lane = []
  deleverages : ∀ caller shortfall coverage next,
    h.executeDeleverage caller shortfall = .ok (coverage, next) →
      (∀ d ∈ coverage.deleveraged, ∃ p, h.ledger.position? d.position = some p ∧
        p.market = shortfall.market ∧ p.side = shortfall.side.opposite) ∧
      ∀ id, (∀ d ∈ coverage.deleveraged, d.position ≠ id) →
        next.ledger.position? id = h.ledger.position? id

theorem Synced.faithful (hsynced : h.Synced ts) : h.Faithful ts := by
  obtain ⟨hindexed, hmirrors⟩ := hsynced
  refine ⟨fun lane id => ?_, hmirrors.once, fun lane c hc => ?_, hmirrors.stale_eq_nil,
    fun caller shortfall coverage next hx => ?_⟩
  · rw [DeleverageQueue.contains_iff]
    constructor
    · rintro ⟨c, hc, rfl⟩
      obtain ⟨p, hp, hlane, -, hgains, hin⟩ := hmirrors.shown lane c hc
      exact ⟨p, hp, hlane, hgains, hin⟩
    · rintro ⟨p, hp, rfl, hgains, hin⟩
      exact hmirrors.listed id p hp hgains hin
  · obtain ⟨p, hp, hlane, hshows, -⟩ := hmirrors.shown lane c hc
    exact ⟨p, hp, hlane, hshows⟩
  · have hexecutes := DeleverageQueue.execute_executes hindexed (executeDeleverage_eq_ok hx)
    refine ⟨fun d hd => ?_, hexecutes.untouched⟩
    obtain ⟨p, hp, hlane⟩ := hmirrors.exists_of_mem_deleveraged hexecutes hd
    exact ⟨p, hp, congrArg Lane.market hlane, congrArg Lane.side hlane⟩

/-- **Who is in the queue.**  In every house that a run of calls reaches, a position is a candidate
just where it is open in the lane, gains, and was not left out by its last change. -/
theorem run_faithful {start : House} (hfounded : start.Founded) {calls : List Call}
    (hrun : start.run calls = .ok h) : h.Faithful (start.touches calls) :=
  (hfounded.synced.run hrun).faithful

/-- A house in which one account may do everything. -/
def sampleHouse : House :=
  .empty .standard
    ((((Roles.empty.grant .tradingEntry ⟨9⟩).grant .liquidator ⟨9⟩).grant .riskManager ⟨9⟩).grant
      .keeper ⟨9⟩)
    .empty (.clear 0)

/-- Two longs gain, and the shortfall of a short is covered from them. -/
def sampleCalls : List Call :=
  [.configureMargin ⟨9⟩ ⟨1⟩ .standard,
    .configureDeleverage ⟨9⟩ ⟨1⟩ ⟨100⟩ 5 0,
    .openPosition ⟨9⟩ (Ledger.sampleOrder ⟨1⟩ .long (.ofUInt32 2)),
    .openPosition ⟨9⟩ (Ledger.sampleOrder ⟨2⟩ .long (.ofUInt32 3)),
    .openPosition ⟨9⟩ (Ledger.sampleOrder ⟨3⟩ .short .one),
    .replacePrices (PriceBook.empty.setPrice ⟨1⟩ (.ofUInt32 110) .epoch),
    .refreshMarket ⟨9⟩ ⟨1⟩,
    .executeDeleverage ⟨9⟩ ⟨⟨1⟩, ⟨3⟩, .short, .one, .ofUInt32 110⟩]

/-- The first in the queue is reduced and left out; the other stays. -/
theorem run_faithful_reduced :
    ∃ h, sampleHouse.run sampleCalls = .ok h ∧
      (lastTouch? (sampleHouse.touches sampleCalls) ⟨2⟩ = some (.reduced ⟨2⟩) ∧
        (h.queue.candidates ⟨⟨1⟩, .long⟩).map (·.position) = [⟨1⟩]) ∧
      h.Faithful (sampleHouse.touches sampleCalls) := by
  obtain ⟨h, hrun, htest⟩ := exists_of_succeedsWith
    (fun h : House => lastTouch? (sampleHouse.touches sampleCalls) ⟨2⟩ = some (.reduced ⟨2⟩) ∧
      (h.queue.candidates ⟨⟨1⟩, .long⟩).map (·.position) = [⟨1⟩])
    (x := sampleHouse.run sampleCalls) (by decide +kernel)
  exact ⟨h, hrun, of_decide_eq_true htest, run_faithful (.empty _ _ _ _) hrun⟩

end House

end Clearing

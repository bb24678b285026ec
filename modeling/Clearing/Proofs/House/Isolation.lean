import Clearing.Proofs.Deleverage.Lanes
import Clearing.Proofs.House.Calls
import Clearing.Proofs.House.Candidates
import Clearing.Proofs.Ledger.Isolation

/-!
Markets of a house, side by side.

The components of a house share one ledger, one queue and one funding book among all markets.  A
call concerns one market, which must not be halted, and what it leaves in the others is what it
found there (`answer_sameIn`).  For most calls the market is named by the caller or by the
position.  A deleveraging takes its positions from the queue instead, so that it stays in its
market only because the queue mirrors the ledger: whoever is listed in a lane is open in it.
-/

namespace Clearing

/-! ### The queue -/

namespace DeleverageQueue

/-- Both queues rank the same candidates in a market and count the same executions. -/
structure SameIn (market : MarketId) (q next : DeleverageQueue) : Prop where
  ranking : ∀ side, next.ranking ⟨market, side⟩ = q.ranking ⟨market, side⟩
  eventCount : next.eventCount market = q.eventCount market
  lastExecution : next.lastExecution? market = q.lastExecution? market

variable {market other : MarketId} {q mid next : DeleverageQueue}

namespace SameIn

theorem refl (market : MarketId) (q : DeleverageQueue) : SameIn market q q :=
  ⟨fun _ => rfl, rfl, rfl⟩

theorem trans (h : SameIn market q mid) (h' : SameIn market mid next) : SameIn market q next :=
  ⟨fun side => (h'.ranking side).trans (h.ranking side), h'.eventCount.trans h.eventCount,
    h'.lastExecution.trans h.lastExecution⟩

theorem of_rankings {rankings : Table Lane Ranking}
    (h : ∀ side, DeleverageQueue.ranking { q with rankings := rankings } ⟨market, side⟩
      = q.ranking ⟨market, side⟩) : SameIn market q { q with rankings := rankings } :=
  ⟨h, rfl, rfl⟩

theorem remove (q : DeleverageQueue) {lane : Lane} (hother : lane.market ≠ market)
    (id : PositionId) : SameIn market q (q.remove lane id) := by
  have hranking : ∀ side, (q.remove lane id).ranking ⟨market, side⟩ = q.ranking ⟨market, side⟩ := by
    intro side
    rw [ranking_remove, if_pos fun heq => hother (congrArg Lane.market heq)]
  unfold DeleverageQueue.remove at hranking ⊢
  cases hget : q.rankings.get? lane with
  | none => exact refl market q
  | some r =>
    rw [hget] at hranking
    exact of_rankings hranking

theorem notify (q : DeleverageQueue) {notice : Notice} (hother : notice.lane.market ≠ market) :
    SameIn market q (q.notify notice) := by
  cases notice with
  | left _ id _ => exact remove q hother id
  | gaining c =>
    have hranking : ∀ side, (q.update c).ranking ⟨market, side⟩ = q.ranking ⟨market, side⟩ := by
      intro side
      rw [ranking_update, if_pos fun heq => hother (congrArg Lane.market heq)]
    show SameIn market q (q.update c)
    unfold DeleverageQueue.update at hranking ⊢
    by_cases hgains : c.isProfitable = true
    · rw [if_pos hgains] at hranking ⊢
      exact of_rankings hranking
    · rw [if_neg hgains]
      exact remove q hother c.position

theorem notifyAll (q : DeleverageQueue) {notices : List Notice}
    (hother : ∀ notice ∈ notices, notice.lane.market ≠ market) :
    SameIn market q (q.notifyAll notices) :=
  List.foldlRecOn notices _ (refl market q) fun mid hmid notice hnotice =>
    hmid.trans (notify mid (hother notice hnotice))

end SameIn

theorem configure_sameIn {terms : DeleverageTerms} {previous : Option DeleverageTerms}
    (h : q.configure other terms = .ok (previous, next)) : SameIn market q next := by
  obtain ⟨-, rfl⟩ := configure_eq_ok h
  exact ⟨fun _ => rfl, rfl, rfl⟩

theorem toggle_sameIn {active : Bool} (h : q.toggle other = .ok (active, next)) :
    SameIn market q next := by
  obtain ⟨terms, -, rfl⟩ := toggle_eq_ok h
  exact ⟨fun _ => rfl, rfl, rfl⟩

theorem execute_queue_sameIn {l ledger : Ledger} {schedule : MarginSchedule}
    {shortfall : Shortfall} {now : Instant} {coverage : Coverage}
    (h : q.execute l schedule shortfall now = .ok (coverage, next, ledger))
    (hother : shortfall.market ≠ market) : SameIn market q next := by
  unfold execute at h
  simp only [bind_eq_ok, refusing_eq_ok, ite_refuse_eq_ok, pure_eq_ok, Prod.mk.injEq] at h
  obtain ⟨terms, -, -, walk, -, -, rfl, -⟩ := h
  have hleft := List.foldlRecOn
    (walk.deleveraged.map (·.position) ++ (q.stale l shortfall.lane).map (·.position))
    (fun q id => q.remove shortfall.lane id) (SameIn.refl market q)
    fun mid hmid id _ => hmid.trans (SameIn.remove mid hother id)
  refine ⟨hleft.ranking, ?_, ?_⟩
  · refine Eq.trans ?_ hleft.eventCount
    exact congrArg (Option.getD · 0) (Table.get?_insert_of_ne _ _ (Ne.symm hother))
  · refine Eq.trans ?_ hleft.lastExecution
    exact Table.get?_insert_of_ne _ _ (Ne.symm hother)

end DeleverageQueue

/-! ### The funding book -/

namespace FundingBook

/-- A market that has a funding state keeps it. -/
def KeepsState (market : MarketId) (b next : FundingBook) : Prop :=
  ∀ state, b.state? market = some state → next.state? market = some state

variable {market other : MarketId} {b next : FundingBook} {now : Instant}

theorem configure_keepsState {terms : FundingTerms} {previous : Option FundingTerms}
    (h : b.configure other terms now = .ok (previous, next)) : KeepsState market b next := by
  obtain ⟨-, -, -, hstates⟩ := configure_eq_ok h
  intro state hstate
  rw [hstates market]
  split
  · rename_i hmarket
    rw [← hmarket, hstate, Option.getD_some]
  · exact hstate

theorem settle_keepsState {l l' : Ledger} {s : FundingSettlement}
    (h : b.settle other l now = .ok (s, next, l')) (hother : other ≠ market) :
    KeepsState market b next := by
  intro state hstate
  rw [(settle_settled h).state?_of_ne (Ne.symm hother)]
  exact hstate

end FundingBook

/-! ### The house -/

namespace House

/-- Both houses have the same in a market: its positions, its open interest, its candidates and
executions, and the state of its funding if it had one. -/
structure SameIn (market : MarketId) (h next : House) : Prop where
  positions : next.ledger.positionsIn market = h.ledger.positionsIn market
  ledger : Ledger.SameIn market h.ledger next.ledger
  queue : DeleverageQueue.SameIn market h.queue next.queue
  funding : FundingBook.KeepsState market h.funding next.funding

variable {h mid next : House} {market : MarketId} {ts : List Touch}

/-- Where the ledger is the same, all that can differ is in the queue and in the funding book. -/
theorem SameIn.of_ledger (hledger : next.ledger = h.ledger)
    (hqueue : DeleverageQueue.SameIn market h.queue next.queue)
    (hfunding : FundingBook.KeepsState market h.funding next.funding) : SameIn market h next :=
  ⟨congrArg (·.positionsIn market) hledger, hledger ▸ .refl market h.ledger, hqueue, hfunding⟩

theorem SameIn.idle (hledger : next.ledger = h.ledger) (hqueue : next.queue = h.queue)
    (hfunding : next.funding = h.funding) : SameIn market h next :=
  .of_ledger hledger (hqueue ▸ .refl market h.queue) fun _ hstate => hfunding ▸ hstate

theorem SameIn.refl (market : MarketId) (h : House) : SameIn market h h :=
  .idle rfl rfl rfl

theorem SameIn.trans (h₁ : SameIn market h mid) (h₂ : SameIn market mid next) :
    SameIn market h next :=
  ⟨h₂.positions.trans h₁.positions, h₁.ledger.trans h₂.ledger, h₁.queue.trans h₂.queue,
    fun state hstate => h₂.funding state (h₁.funding state hstate)⟩

/-- What a call posts in another market does not show. -/
theorem post_sameIn {α : Type} {other : MarketId} {posted : Ledger.Posted α}
    {events : List Payload} (hindexed : h.ledger.WellIndexed)
    (hnext : posted.ledger.WellIndexed) (hledger : Ledger.SameIn market h.ledger posted.ledger)
    (hnotices : ∀ notice ∈ posted.notices, notice.lane.market ≠ market) :
    SameIn market h (h.post other posted events) :=
  ⟨hledger.positionsIn hindexed hnext, hledger, .notifyAll h.queue hnotices,
    fun _ hstate => hstate⟩

/-- A market that is running is not the one that is halted. -/
theorem ne_of_running {other : MarketId} (hhalted : h.safeguards.isTripped market = true)
    (hrunning : h.safeguards.isTripped other = false) : other ≠ market := by
  rintro rfl
  rw [hhalted] at hrunning
  cases hrunning

/-- The candidates of a lane are open in the market of the lane. -/
theorem Synced.awayFrom_of_candidate (hsynced : h.Synced ts) {lane : Lane}
    (hother : lane.market ≠ market) :
    ∀ c ∈ h.queue.candidates lane, h.ledger.AwayFrom market c.position := by
  intro c hc
  obtain ⟨p, hp, hlane, -⟩ := hsynced.mirrors.shown lane c hc
  have hmarket : p.market = lane.market := congrArg Lane.market hlane
  exact Ledger.awayFrom_of_held hp (hmarket.trans_ne hother)

/-- **Calls elsewhere.**  While a market is halted, an accepted call leaves it as it is, whatever
the call is and whoever makes it. -/
theorem Acts.sameIn {call : Call} {reply : Reply} (hacts : Acts h call reply next)
    (hsynced : h.Synced ts) (hhalted : h.safeguards.isTripped market = true) :
    SameIn market h next := by
  have hindexed := hsynced.indexed
  have hnext : next.ledger.WellIndexed := hsynced.indexed_moves hacts.moves
  cases hacts with
  | supplied _ _ => exact .idle rfl rfl rfl
  | opened running posts =>
    have hother := ne_of_running hhalted running
    obtain ⟨price, notice, -, -, hopens⟩ := Ledger.openPosition_eq_ok posts
    exact post_sameIn hindexed hnext (hopens.sameIn hindexed hother) fun notice hnotice =>
      (Ledger.market_of_opened posts notice hnotice).trans_ne hother
  | @modified _ _ _ _ before _ _ held running posts =>
    have hother := ne_of_running hhalted running
    obtain ⟨current, p, notice, hheld, hsame, -, -, hamends⟩ := Ledger.modify_eq_ok posts
    obtain rfl : current = before := Option.some.inj (hheld.symm.trans held)
    exact post_sameIn hindexed hnext (hamends.sameIn hindexed.stored held hsame hother)
      fun notice hnotice => (Ledger.market_of_modified held posts notice hnotice).trans_ne hother
  | closed _ running notices closes =>
    have hother := ne_of_running hhalted running
    refine post_sameIn hindexed hnext (closes.sameIn hindexed.stored hother) ?_
    rw [notices, List.forall_mem_singleton]
    exact hother
  | deleveraged running executed =>
    have hother := ne_of_running hhalted running
    have hledger := DeleverageQueue.execute_sameIn hindexed executed
      (hsynced.awayFrom_of_candidate hother)
    exact ⟨hledger.positionsIn hindexed hnext, hledger,
      DeleverageQueue.execute_queue_sameIn executed hother, fun _ hstate => hstate⟩
  | refreshed running posts =>
    have hother := ne_of_running hhalted running
    exact post_sameIn hindexed hnext (Ledger.refreshMarket_sameIn hindexed posts hother)
      fun notice hnotice =>
        (Ledger.market_of_refreshed hindexed posts notice hnotice).trans_ne hother
  | settled running settles =>
    have hother := ne_of_running hhalted running
    have hledger := FundingBook.settle_sameIn hindexed settles hother
    exact ⟨hledger.positionsIn hindexed hnext, hledger, .refl market _,
      FundingBook.settle_keepsState settles hother⟩
  | margined _ _ _ => exact .idle rfl rfl rfl
  | configured _ configures _ =>
    exact .of_ledger rfl (DeleverageQueue.configure_sameIn configures) fun _ hstate => hstate
  | toggled _ toggles _ =>
    exact .of_ledger rfl (DeleverageQueue.toggle_sameIn toggles) fun _ hstate => hstate
  | funded _ configures =>
    exact .of_ledger rfl (.refl market _) (FundingBook.configure_keepsState configures)

end House

end Clearing

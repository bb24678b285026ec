import Clearing.Proofs.Deleverage.Ranking
import Clearing.Proofs.Funding.Settlement
import Clearing.Proofs.House.Calls

/-!
What an accepted call does to the ledger and the queue.

Whatever is asked of a house and whoever asks, ledger and queue move in one of seven ways, and
most calls do not move them at all.  `Moves` lists the ways, together with whom each of them
touches, and leaves out everything else that a call does: gates, events and terms.
-/

namespace Clearing

namespace House

/-- How ledger and queue move, and whom that touches. -/
inductive Moves (h next : House) : List Touch → Prop
  | idle (ledger : next.ledger = h.ledger) (rankings : next.queue.rankings = h.queue.rankings) :
    Moves h next []
  | opened {p : Position} {now : Instant} {notice : Notice}
      (opens : Ledger.Opens h.ledger p now notice next.ledger)
      (queue : next.queue = h.queue.notify notice) : Moves h next [.reported p.id]
  | modified {id : PositionId} {current p : Position} {mark : Price} {now : Instant}
      {notice : Notice} (held : h.ledger.position? id = some current)
      (same : p.identity = current.identity)
      (amends : Ledger.Amends h.ledger current p mark now notice next.ledger)
      (queue : next.queue = h.queue.notify notice) : Moves h next [.reported id]
  | closed {id : PositionId} {p : Position} {now : Instant}
      (closes : Ledger.Closes h.ledger id p now next.ledger)
      (queue : next.queue = h.queue.notify (.left p.market id p.side)) : Moves h next []
  | refreshed {market : MarketId} {mark : Price} {now : Instant}
      {posted : Ledger.Posted (List PositionId)}
      (marked : h.ledger.refreshMarket market mark now = .ok posted)
      (ledger : next.ledger = posted.ledger)
      (queue : next.queue = h.queue.notifyAll posted.notices) :
    Moves h next ((h.ledger.idsIn market).map .reported)
  | funded {payments : List (PositionId × Amount)} {index : Decimal} {now : Instant}
      (booked : h.ledger.applyFunding payments index now = .ok next.ledger)
      (queue : next.queue = h.queue) : Moves h next []
  | deleveraged {shortfall : Shortfall} {now : Instant} {coverage : Coverage}
      (executed : h.queue.execute h.ledger h.schedule shortfall now
        = .ok (coverage, next.queue, next.ledger)) :
    Moves h next ((reductions coverage.deleveraged).map .reduced)

variable {h next : House} {call : Call} {reply : Reply}

theorem Acts.moves (hacts : Acts h call reply next) : Moves h next (h.touchedBy call reply) := by
  cases hacts with
  | supplied nobody _ =>
    rw [nobody]
    exact .idle rfl rfl
  | @opened _ order posted _ posts =>
    obtain ⟨price, notice, -, hnotices, hopens⟩ := Ledger.openPosition_eq_ok posts
    refine .opened (p := order.toPosition posted.result price h.now) hopens ?_
    show h.queue.notifyAll _ = _
    rw [hnotices]
    rfl
  | modified _ _ posts =>
    obtain ⟨current, p, notice, hheld, hsame, -, hnotices, hamends⟩ := Ledger.modify_eq_ok posts
    refine .modified hheld hsame hamends ?_
    show h.queue.notifyAll _ = _
    rw [hnotices]
    rfl
  | closed nobody _ notices closes =>
    rw [nobody]
    refine .closed closes ?_
    show h.queue.notifyAll _ = _
    rw [notices]
    rfl
  | deleveraged _ executed => exact .deleveraged executed
  | refreshed _ posts => exact .refreshed posts rfl rfl
  | settled _ settles =>
    rcases FundingBook.settle_eq_ok settles with ⟨-, hledger⟩ | ⟨_, _, _, _, -, hbooked, -⟩
    · exact .idle hledger rfl
    · exact .funded hbooked rfl
  | margined nobody _ _ =>
    rw [nobody]
    exact .idle rfl rfl
  | configured nobody configures _ =>
    rw [nobody]
    exact .idle rfl (DeleverageQueue.rankings_configure configures)
  | toggled nobody toggles _ =>
    rw [nobody]
    exact .idle rfl (DeleverageQueue.rankings_toggle toggles)
  | funded nobody _ =>
    rw [nobody]
    exact .idle rfl rfl

/-- **What an accepted call does to ledger and queue.** -/
theorem answer_moves (hx : h.answer call = .ok (reply, next)) :
    Moves h next (h.touchedBy call reply) :=
  (answer_acts hx).moves

end House

end Clearing

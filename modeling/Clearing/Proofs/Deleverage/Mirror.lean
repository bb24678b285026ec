import Clearing.Proofs.Deleverage.Execution

/-!
The queue as a mirror of the ledger.

A queue is a second copy of what a ledger knows: who gains, and how much.  It is never worked out
anew but fed with notices, and an execution feeds it nothing.  `Mirrors` says that the copy is
right: one candidate for each position that gains, as it stands, except for those that a
deleveraging has reduced since they were last reported.

Every way to change both is followed here once.  A report and a closing concern one position; a
refresh is a report of each position in a market; funding changes nothing that a queue shows; and
an execution takes the positions it touches out of the queue, whatever becomes of them.
-/

namespace Clearing

open Decimal

/-- What a queue shows of a position: who it is, and what it gains. -/
def Position.outlook (p : Position) : Position.Identity × Amount :=
  (p.identity, p.unrealizedPnl)

theorem Candidate.Shows.of_outlook {c : Candidate} {p p' : Position} (h : c.Shows p)
    (hsame : p'.outlook = p.outlook) : c.Shows p' := by
  obtain ⟨hidentity, hpnl⟩ := Prod.mk.inj hsame
  have hleverage : p'.leverage = p.leverage := congrArg Position.Identity.leverage hidentity
  exact {
    market := h.market.trans (Position.market_eq_of_identity hidentity).symm
    position := h.position.trans (Position.id_eq_of_identity hidentity).symm
    owner := h.owner.trans (Position.owner_eq_of_identity hidentity).symm
    side := h.side.trans (Position.side_eq_of_identity hidentity).symm
    unrealizedPnl := h.unrealizedPnl.trans hpnl.symm
    leverage := h.leverage.trans hleverage.symm
    score := by rw [show p'.unrealizedPnl = p.unrealizedPnl from hpnl, hleverage]; exact h.score }

/-- The queue holds one candidate for each gaining position that is not left out, as it stands. -/
structure Mirrors (l : Ledger) (q : DeleverageQueue) (leftOut : PositionId → Prop) : Prop where
  once : ∀ lane, ((q.candidates lane).map (·.position)).Nodup
  shown : ∀ lane, ∀ c ∈ q.candidates lane, ∃ p, l.position? c.position = some p ∧ p.lane = lane ∧
    c.Shows p ∧ zero < p.unrealizedPnl ∧ ¬ leftOut c.position
  listed : ∀ id p, l.position? id = some p → zero < p.unrealizedPnl → ¬ leftOut id →
    ∃ c ∈ q.candidates p.lane, c.position = id

namespace Mirrors

variable {l next : Ledger} {q left : DeleverageQueue} {leftOut : PositionId → Prop}

theorem congr (h : Mirrors l q leftOut) {leftOut' : PositionId → Prop}
    (hiff : ∀ id, leftOut' id ↔ leftOut id) : Mirrors l q leftOut' := by
  rwa [show leftOut' = leftOut from funext fun id => propext (hiff id)]

/-! ### One position -/

/-- Where one position changed and the queue with it, the rest is as right as it was. -/
theorem sameBut (h : Mirrors l q leftOut) {lane : Lane} {id : PositionId}
    {leftOut' : PositionId → Prop}
    (hlane : ∀ old, l.position? id = some old → old.lane = lane)
    (hnext : ∀ other, other ≠ id → next.position? other = l.position? other)
    (hout : ∀ other, other ≠ id → (leftOut' other ↔ leftOut other))
    (hqueue : q.SameBut lane id left)
    (hshown : ∀ c ∈ left.candidates lane, c.position = id → ∃ p, next.position? id = some p ∧
      p.lane = lane ∧ c.Shows p ∧ zero < p.unrealizedPnl ∧ ¬ leftOut' id)
    (hlisted : ∀ p, next.position? id = some p → zero < p.unrealizedPnl → ¬ leftOut' id →
      ∃ c ∈ left.candidates p.lane, c.position = id) :
    Mirrors next left leftOut' := by
  refine ⟨fun other => hqueue.once other (h.once other), fun other c hc => ?_,
    fun other p hp hgains hin => ?_⟩
  · by_cases hid : c.position = id
    · by_cases hsame : other = lane
      · subst hsame
        rw [hid]
        exact hshown c hc hid
      · -- In another lane the position was not a candidate before, and none came in.
        have hold := (hqueue.kept other c fun heq => absurd heq hsame).1 hc
        obtain ⟨old, hheld, hbefore, -⟩ := h.shown other c hold
        rw [hid] at hheld
        exact absurd (hbefore.symm.trans (hlane old hheld)) hsame
    · have hold := (hqueue.kept other c fun _ => hid).1 hc
      rw [hnext _ hid, hout _ hid]
      exact h.shown other c hold
  · by_cases hid : other = id
    · subst hid
      exact hlisted p hp hgains hin
    · rw [hnext _ hid] at hp
      rw [hout _ hid] at hin
      obtain ⟨c, hc, rfl⟩ := h.listed other p hp hgains hin
      exact ⟨c, (hqueue.kept p.lane c fun _ => hid).2 hc, rfl⟩

/-- A position that is written and reported is shown as it was written. -/
theorem report (h : Mirrors l q leftOut) {p : Position} {now : Instant} {notice : Notice}
    (hlane : ∀ old, l.position? p.id = some old → old.lane = p.lane)
    (hnext : ∀ id, next.position? id = if id = p.id then some p else l.position? id)
    (hnotice : p.notice now = .ok notice) :
    Mirrors next (q.notify notice) fun id => leftOut id ∧ id ≠ p.id := by
  obtain ⟨hqueue, hshown, hlisted⟩ := DeleverageQueue.notify_spec q hnotice
  have hself : next.position? p.id = some p := by rw [hnext, if_pos rfl]
  refine h.sameBut hlane (fun other hne => ?_) (fun other hne => and_iff_left hne) hqueue ?_ ?_
  · rw [hnext, if_neg hne]
  · intro c hc hid
    obtain ⟨hshows, hgains⟩ := hshown c hc hid
    exact ⟨p, hself, rfl, hshows, hgains, fun hout => hout.2 rfl⟩
  · intro p' hp' hgains _
    rw [hself] at hp'
    cases hp'
    exact hlisted hgains

/-- A position that is closed and reported as such is gone from both. -/
theorem close (h : Mirrors l q leftOut) {p : Position} (hheld : l.position? p.id = some p)
    (hnext : ∀ id, next.position? id = if id = p.id then none else l.position? id) :
    Mirrors next (q.notify (.left p.market p.id p.side)) leftOut := by
  have hgone : next.position? p.id = none := by rw [hnext, if_pos rfl]
  refine h.sameBut (fun old hold => ?_) (fun other hne => ?_)
    (fun _ _ => Iff.rfl) (DeleverageQueue.remove_sameBut q p.lane p.id) ?_ ?_
  · rw [hheld] at hold
    cases hold
    rfl
  · rw [hnext, if_neg hne]
  · exact fun c hc hid => absurd hid (DeleverageQueue.not_mem_remove hc)
  · intro p' hp'
    rw [hgone] at hp'
    cases hp'

/-! ### Many positions -/

/-- A queue shows of positions no more than their outlook. -/
theorem of_outlook (h : Mirrors l q leftOut)
    (hnext : ∀ id, (next.position? id).map Position.outlook = (l.position? id).map Position.outlook)
    (hqueue : left.rankings = q.rankings) : Mirrors next left leftOut := by
  refine ⟨fun lane => ?_, fun lane c hc => ?_, fun id p' hp' hgains hin => ?_⟩
  · rw [DeleverageQueue.candidates_congr hqueue]
    exact h.once lane
  · rw [DeleverageQueue.candidates_congr hqueue] at hc
    obtain ⟨p, hp, hlane, hshows, hgains, hin⟩ := h.shown lane c hc
    have houtlook := hnext c.position
    rw [hp, Option.map_some] at houtlook
    obtain ⟨p', hp', hsame⟩ := Option.map_eq_some_iff.1 houtlook
    obtain ⟨hidentity, hpnl⟩ := Prod.mk.inj hsame
    exact ⟨p', hp', (Position.lane_eq_of_identity hidentity).trans hlane, hshows.of_outlook hsame,
      by rw [hpnl]; exact hgains, hin⟩
  · have houtlook := hnext id
    rw [hp', Option.map_some] at houtlook
    obtain ⟨p, hp, hsame⟩ := Option.map_eq_some_iff.1 houtlook.symm
    obtain ⟨hidentity, hpnl⟩ := Prod.mk.inj hsame
    rw [DeleverageQueue.candidates_congr hqueue, ← Position.lane_eq_of_identity hidentity]
    exact h.listed id p hp (by rw [hpnl]; exact hgains) hin

/-- Funding leaves every outlook as it is. -/
theorem applyFunding (h : Mirrors l q leftOut) {payments : List (PositionId × Amount)}
    {index : Decimal} {now : Instant} (hx : l.applyFunding payments index now = .ok next) :
    Mirrors next q leftOut :=
  h.of_outlook (Ledger.map_position?_applyFunding Position.outlook (fun _ _ _ _ => rfl) hx) rfl

/-- Positions that are marked and reported one after the other. -/
theorem records (h : Mirrors l q leftOut) {now : Instant} {marked : List Ledger.Marked}
    (hheld : ∀ m ∈ marked, (l.position? m.entry.position.id).map Position.identity
      = some m.entry.position.identity)
    (hnotice : ∀ m ∈ marked, m.entry.position.notice now = .ok m.notice) :
    Mirrors (marked.foldl (fun l m => l.record m.entry) l) (q.notifyAll (marked.map (·.notice)))
      fun id => leftOut id ∧ id ∉ marked.map (·.entry.position.id) := by
  induction marked generalizing l q leftOut with
  | nil => exact h.congr fun id => by simp
  | cons m rest ih =>
    have hself := hheld m (List.mem_cons_self ..)
    have hfirst : Mirrors (l.record m.entry) (q.notify m.notice)
        fun id => leftOut id ∧ id ≠ m.entry.position.id := by
      refine h.report (fun old hold => ?_) (Ledger.position?_record l m.entry)
        (hnotice m (List.mem_cons_self ..))
      rw [hold, Option.map_some, Option.some.injEq] at hself
      exact Position.lane_eq_of_identity hself
    refine (ih hfirst (fun m' hm' => ?_)
      fun m' hm' => hnotice m' (List.mem_cons_of_mem _ hm')).congr fun id => ?_
    · rw [Ledger.position?_record]
      have hrest := hheld m' (List.mem_cons_of_mem _ hm')
      by_cases hid : m'.entry.position.id = m.entry.position.id
      · rw [if_pos hid]
        rwa [hid, hself] at hrest
      · rwa [if_neg hid]
    · rw [List.map_cons, List.mem_cons, not_or, and_assoc]

/-- A refresh reports every position of its market. -/
theorem refreshMarket (h : Mirrors l q leftOut) (hstored : l.Stored) {market : MarketId}
    {mark : Price} {now : Instant} {posted : Ledger.Posted (List PositionId)}
    (hx : l.refreshMarket market mark now = .ok posted) :
    Mirrors posted.ledger (q.notifyAll posted.notices)
      fun id => leftOut id ∧ id ∉ l.idsIn market := by
  obtain ⟨marked, portfolios, hmarked, hnotices, hledger⟩ := Ledger.refreshMarket_eq_ok hx
  rw [hledger, hnotices, ← Ledger.ids_marked hmarked hstored]
  have hstart : Mirrors { l with portfolios := portfolios } q leftOut :=
    h.of_outlook (fun _ => rfl) rfl
  have hnotified : ∀ m ∈ marked, m.entry.position.notice now = .ok m.notice := by
    intro m hm
    obtain ⟨_, _, -, -, hnotice⟩ := Ledger.exists_of_mem_marked hmarked hm
    exact hnotice
  exact hstart.records (fun m hm =>
    Ledger.map_position?_marked hmarked hstored Position.identity (fun _ _ => rfl) hm) hnotified

/-! ### Executions -/

/-- Every candidate stands for an open position. -/
theorem stale_eq_nil (h : Mirrors l q leftOut) (lane : Lane) : q.stale l lane = [] := by
  refine List.filter_eq_nil_iff.2 fun c hc => ?_
  obtain ⟨p, hp, -⟩ := h.shown lane c hc
  obtain ⟨e, he, -⟩ := Option.map_eq_some_iff.1 hp
  simp [Ledger.contains, Table.contains, he]

variable {lane : Lane} {deleveraged : List Deleveraged}

/-- An execution touches open positions of its lane. -/
theorem exists_of_mem_deleveraged (h : Mirrors l q leftOut)
    (hx : DeleverageQueue.Executes l q lane deleveraged next left) {d : Deleveraged}
    (hd : d ∈ deleveraged) :
    ∃ p, l.position? d.position = some p ∧ p.lane = lane := by
  obtain ⟨c, hc, hposition⟩ := hx.picked d hd
  obtain ⟨p, hp, hlane, -⟩ := h.shown _ c hc
  exact ⟨p, hposition ▸ hp, hlane⟩

/-- What an execution reduces and does not close is left out from then on. -/
theorem execute (h : Mirrors l q leftOut)
    (hx : DeleverageQueue.Executes l q lane deleveraged next left) :
    Mirrors next left fun id => leftOut id ∨
      ∃ d ∈ deleveraged, d.fullyClosed = false ∧ d.position = id := by
  refine ⟨fun other => ?_, fun other c hc => ?_, fun id p hp hgains hin => ?_⟩
  · exact (h.once other).sublist ((hx.sublist other).map _)
  · obtain ⟨hold, hkept⟩ := (hx.kept other c).1 hc
    obtain ⟨p, hp, hlane, hshows, hgains, hin⟩ := h.shown other c hold
    have huntouched : ∀ d ∈ deleveraged, d.position ≠ c.position := by
      intro d hd heq
      obtain ⟨p', hp', hlane'⟩ := h.exists_of_mem_deleveraged hx hd
      rw [heq, hp] at hp'
      cases hp'
      exact (hkept (hlane.symm.trans hlane')).1 d hd heq
    refine ⟨p, by rw [hx.untouched _ huntouched, hp], hlane, hshows, hgains, ?_⟩
    rintro (hout | ⟨d, hd, -, heq⟩)
    · exact hin hout
    · exact huntouched d hd heq
  · have huntouched : ∀ d ∈ deleveraged, d.position ≠ id := by
      intro d hd heq
      cases hfully : d.fullyClosed with
      | true =>
        have hgone := hx.closed d hd hfully
        rw [heq, hp] at hgone
        cases hgone
      | false => exact hin (.inr ⟨d, hd, hfully, heq⟩)
    rw [hx.untouched id huntouched] at hp
    obtain ⟨c, hc, rfl⟩ := h.listed id p hp hgains fun hout => hin (.inl hout)
    refine ⟨c, (hx.kept p.lane c).2 ⟨hc, fun _ => ⟨huntouched, ?_⟩⟩, rfl⟩
    rw [h.stale_eq_nil]
    exact List.not_mem_nil

end Mirrors

end Clearing

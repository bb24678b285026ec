import Clearing.Proofs.Event.Journal
import Clearing.Proofs.House.Candidates
import Clearing.Proofs.Ledger.Holdings

/-!
The journal tells the whole story.

The events of a call are put together by hand, after the ledger has changed, from what was known
before it and what is known after.  `Tells` says what they must amount to: whoever had the holdings
of the ledger before the call and reads them gets the holdings after it.  Every accepted call tells
what it did (`Acts.tells`), so the events of a whole run, read from the beginning, lead to the open
positions (`run_replays`), as long as the journal has dropped none of them.

A deleveraging is told pick by pick.  Its closings quote a size from before the whole walk, which is
still the size that the walk found, since no pick changes the position of another.
-/

namespace Clearing

/-! ### What events amount to -/

/-- An event that changes nobody's holding. -/
def Payload.Quiet (e : Payload) : Prop :=
  ∀ t, e.replay t = some t

theorem foldlM_replay_of_quiet {payloads : List Payload} (h : ∀ e ∈ payloads, e.Quiet)
    (t : Holdings) : payloads.foldlM Payload.replay t = some t := by
  induction payloads with
  | nil => rfl
  | cons e payloads ih =>
    rw [List.foldlM_cons, h e (List.mem_cons_self ..)]
    exact ih fun e he => h e (List.mem_cons_of_mem _ he)

theorem not_quiet_positionClosed (closed : PositionClosed) :
    ¬ (Payload.positionClosed closed).Quiet := by
  intro h
  cases h .empty

/-- The events lead from the holdings of one ledger to those of the next, and each closing among
them quotes the size that the position had in the first. -/
structure Ledger.Tells (l : Ledger) (payloads : List Payload) (next : Ledger) : Prop where
  replays : payloads.foldlM Payload.replay l.holdings = some next.holdings
  closings : ∀ closed, Payload.positionClosed closed ∈ payloads →
    (l.position? closed.position).map (·.size) = some closed.size

namespace Ledger

variable {l next : Ledger}

namespace Tells

theorem of_quiet {payloads : List Payload} (h : ∀ e ∈ payloads, e.Quiet)
    (hsame : next.holdings = l.holdings) : Tells l payloads next where
  replays := by rw [foldlM_replay_of_quiet h, hsame]
  closings closed hclosed := absurd (h _ hclosed) (not_quiet_positionClosed closed)

/-- There is nothing to tell where no holding changes. -/
theorem silent (hsame : next.holdings = l.holdings) : Tells l [] next :=
  of_quiet (List.forall_mem_nil _) hsame

theorem append_quiet {payloads quiet : List Payload} (h : Tells l payloads next)
    (hquiet : ∀ e ∈ quiet, e.Quiet) : Tells l (payloads ++ quiet) next where
  replays := by
    rw [List.foldlM_append, h.replays]
    exact foldlM_replay_of_quiet hquiet _
  closings closed hclosed := by
    rcases List.mem_append.1 hclosed with hclosed | hclosed
    · exact h.closings closed hclosed
    · exact absurd (hquiet _ hclosed) (not_quiet_positionClosed closed)

theorem cons_quiet {e : Payload} {payloads : List Payload} (h : Tells l payloads next)
    (hquiet : e.Quiet) : Tells l (e :: payloads) next where
  replays := by
    rw [List.foldlM_cons, hquiet]
    exact h.replays
  closings closed hclosed := by
    rcases List.mem_cons.1 hclosed with rfl | hclosed
    · exact absurd hquiet (not_quiet_positionClosed closed)
    · exact h.closings closed hclosed

theorem singleton {e : Payload} (hreplay : e.replay l.holdings = some next.holdings)
    (hclosing : ∀ closed, e = .positionClosed closed →
      (l.position? closed.position).map (·.size) = some closed.size) : Tells l [e] next where
  replays := by
    rw [List.foldlM_cons, hreplay]
    rfl
  closings closed hclosed := hclosing closed (List.mem_singleton.1 hclosed).symm

end Tells

/-! ### Steps -/

theorem Opens.tells {p : Position} {now : Instant} {notice : Notice} (hindexed : l.WellIndexed)
    (h : Opens l p now notice next) (hunfunded : p.accumulatedFunding = .zero) :
    Tells l [House.openedEvent p] next := by
  refine .singleton ?_ nofun
  have hfresh : Table.get? l.holdings p.id = none := by
    rw [get?_holdings, hindexed.position?_opened h, Option.map_none]
  have hheld : p.holding = ⟨p.market, p.owner, p.side, p.size, p.collateral, .zero⟩ := by
    unfold Position.holding
    rw [hunfunded]
  rw [holdings_insert h.position?, hheld]
  exact Holdings.enter_of_none hfresh

theorem Amends.tells {id : PositionId} {current p : Position} {mark : Price} {now : Instant}
    {notice : Notice} (hstored : l.Stored) (hheld : l.position? id = some current)
    (hsame : p.identity = current.identity)
    (hfunding : p.accumulatedFunding = current.accumulatedFunding)
    (h : Amends l current p mark now notice next) (realized : Amount) :
    Tells l [House.modifiedEvent current p realized] next := by
  refine .singleton ?_ nofun
  rw [holdings_insert h.position?, Position.id_eq_of_identity hsame,
    holding_of_amended hsame hfunding]
  exact Holdings.alter_of_some (get?_holdings_of_held (hstored.position?_id hheld)) rfl

theorem Closes.tells {id : PositionId} {p : Position} {now : Instant} (hstored : l.Stored)
    (h : Closes l id p now next) (price : Price) (realized : Amount) (reason : CloseReason) :
    Tells l [House.closedEvent p price realized reason] next := by
  have hheld := hstored.position?_id h.held
  refine .singleton ?_ fun closed hclosed => ?_
  · rw [holdings_erase h.position?]
    exact Holdings.leave_of_some (get?_holdings_of_held hheld)
  · cases hclosed
    exact congrArg (Option.map (·.size)) hheld

end Ledger

/-! ### Deleveraging -/

namespace House

variable {l next : Ledger} {shortfall : Shortfall} {execution : Nat}

/-- A position that is taken whole is told of twice: all of its size is taken, then it is closed. -/
theorem replay_deleveraged_closed (hstored : l.Stored) {id : PositionId} {current : Position}
    {now : Instant} (h : Ledger.Closes l id current now next) {before : Position}
    (hbefore : before.id = id) {d : Deleveraged} (hposition : d.position = id)
    (hsize : d.sizeClosed = current.size) (hwhole : d.fullyClosed = true) :
    (deleveragedEvents shortfall execution (some before) d).foldlM Payload.replay l.holdings
      = some next.holdings := by
  obtain ⟨rest, hreduce : Holding.reduce current.size current.holding = some rest⟩ :=
    Holdings.exists_reduce_size current.holding
  have htaken := Holdings.alter_of_some (Ledger.get?_holdings_of_held h.held) hreduce
  unfold deleveragedEvents
  rw [if_pos hwhole, hposition, hsize, List.foldlM_cons]
  show Holdings.alter l.holdings id (Holding.reduce current.size) >>= _ = _
  rw [htaken]
  show Holdings.leave (Table.insert l.holdings id rest) before.id >>= _ = _
  rw [hbefore, Holdings.leave_of_some (Table.get?_insert_self ..), Table.erase_insert,
    Ledger.holdings_erase h.position?, hstored id current h.held]
  rfl

/-- A position of which something is left is told of once. -/
theorem replay_deleveraged_left (hstored : l.Stored) {id : PositionId} {current p : Position}
    {mark : Price} {now : Instant} {notice : Notice} (hheld : l.position? id = some current)
    (hsame : p.identity = current.identity)
    (h : Ledger.Amends l current p mark now notice next) {d : Deleveraged}
    (hleft : current.LeftOf p d.sizeClosed) (hposition : d.position = id)
    (hpart : d.fullyClosed = false) (before : Option Position) :
    (deleveragedEvents shortfall execution before d).foldlM Payload.replay l.holdings
      = some next.holdings := by
  have hid : p.id = id := (Position.id_eq_of_identity hsame).trans (hstored id current hheld)
  have htaken := Holdings.alter_of_some (Ledger.get?_holdings_of_held hheld)
    (Ledger.reduce_of_leftOf hsame hleft)
  unfold deleveragedEvents
  rw [if_neg (by rw [hpart]; decide), hposition, List.foldlM_cons]
  show Holdings.alter l.holdings id (Holding.reduce d.sizeClosed) >>= _ = _
  rw [htaken, Ledger.holdings_insert h.position?, hid]
  rfl

/-- What a walk took so far is told by the events about those it took from. -/
theorem replay_walk {schedule : MarginSchedule} {now : Instant}
    {picks : List (Nat × Candidate)} {walk : DeleverageQueue.Walk} (hindexed : l.WellIndexed)
    (h : picks.foldlM (DeleverageQueue.Walk.take shortfall schedule now) (.start l shortfall)
      = .ok walk) (before : PositionId → Option Position)
    (hbefore : ∀ pick ∈ picks, ∃ p, before pick.2.position = some p ∧ p.id = pick.2.position) :
    (walk.deleveraged.flatMap fun d =>
      deleveragedEvents shortfall execution (before d.position) d).foldlM Payload.replay l.holdings
        = some walk.ledger.holdings := by
  -- `before` is looked up as of the start of the walk, while each step changes the ledger so far.
  suffices walk.ledger.WellIndexed ∧ _ from this.2
  refine foldlM_invariant (P := fun w => w.ledger.WellIndexed ∧
    (w.deleveraged.flatMap fun d =>
      deleveragedEvents shortfall execution (before d.position) d).foldlM Payload.replay l.holdings
        = some w.ledger.holdings) ?_ ⟨hindexed, rfl⟩ h
  rintro w pick hpick w' ⟨hw, htold⟩ htake
  rcases DeleverageQueue.take_eq_ok htake with
    rfl | ⟨-, amount, price, schedule, posted, -, hforced, hledger, hlisted⟩
  · exact ⟨hw, htold⟩
  · obtain ⟨p, hp, hid⟩ := hbefore pick hpick
    refine ⟨hledger ▸ hw.change (Ledger.forceReduce_change hforced), ?_⟩
    · rw [hlisted, List.flatMap_append, List.foldlM_append, htold, List.flatMap_singleton, hledger]
      obtain ⟨current, hheld, ⟨-, hwhole, hclosed, hcloses⟩ |
        ⟨-, hpart, hclosed, _, p', _, -, hsame, -, -, -, hleft, hamends⟩⟩ :=
        Ledger.forceReduce_terms hforced
      · rw [hp]
        exact replay_deleveraged_closed hw.stored hcloses hid rfl hclosed hwhole
      · exact replay_deleveraged_left hw.stored hheld hsame hamends (hclosed ▸ hleft) rfl hpart _

variable {h : House}

theorem held_of_mem_exposed (hstored : h.ledger.Stored) {lane : Lane} {p : Position}
    (hp : p ∈ h.exposed lane) : h.ledger.position? p.id = some p := by
  obtain ⟨c, -, hheld⟩ := List.mem_filterMap.1 hp
  exact hstored.position?_id hheld

/-- Whoever an execution turns to is found among those it can turn to. -/
theorem exists_find?_exposed (hstored : h.ledger.Stored) {terms : DeleverageTerms} {lane : Lane}
    {pick : Nat × Candidate} (hpick : pick ∈ h.queue.picks h.ledger terms lane) :
    ∃ p, (h.exposed lane).find? (·.id = pick.2.position) = some p ∧ p.id = pick.2.position := by
  obtain ⟨hlisted, hopen⟩ := DeleverageQueue.mem_of_mem_picks hpick
  obtain ⟨e, he⟩ := Option.isSome_iff_exists.1 hopen
  have hheld : h.ledger.position? pick.2.position = some e.position :=
    congrArg (Option.map Ledger.Entry.position) he
  have hexposed : e.position ∈ h.exposed lane := List.mem_filterMap.2 ⟨pick.2, hlisted, hheld⟩
  have hfound : ((h.exposed lane).find? (·.id = pick.2.position)).isSome = true :=
    List.find?_isSome.2 ⟨e.position, hexposed, by simpa using hstored _ _ hheld⟩
  obtain ⟨p, hp⟩ := Option.isSome_iff_exists.1 hfound
  exact ⟨p, hp, by simpa using List.find?_some hp⟩

/-- What an execution did is told by the events about everyone it touched. -/
theorem touchedEvents_tell (hindexed : h.ledger.WellIndexed) {coverage : Coverage}
    {queue : DeleverageQueue} {ledger : Ledger}
    (hx : h.queue.execute h.ledger h.schedule shortfall h.now = .ok (coverage, queue, ledger)) :
    h.ledger.Tells (h.touchedEvents shortfall coverage) ledger := by
  obtain ⟨terms, walk, -, -, hwalk, rfl, hdeleveraged, -⟩ := DeleverageQueue.execute_eq_ok hx
  refine ⟨?_, fun closed hclosed => ?_⟩
  · unfold touchedEvents
    rw [hdeleveraged]
    exact replay_walk hindexed hwalk (fun id => (h.exposed shortfall.lane).find? (·.id = id))
      fun pick hpick => exists_find?_exposed hindexed.stored hpick
  · obtain ⟨d, -, hclosed⟩ := List.mem_flatMap.1 hclosed
    unfold deleveragedEvents at hclosed
    rw [List.mem_cons] at hclosed
    rcases hclosed with hclosed | hclosed
    · cases hclosed
    · split at hclosed
      · obtain ⟨p, hp, hclosed⟩ := List.mem_map.1 hclosed
        cases hclosed
        have hfind := List.mem_of_find?_eq_some (Option.mem_toList.1 hp)
        exact congrArg (Option.map (·.size)) (held_of_mem_exposed hindexed.stored hfind)
      · cases hclosed

/-! ### Funding -/

/-- Payments are told in the order in which they were booked. -/
theorem fundingPaid_tell (hindexed : l.WellIndexed) {market : MarketId} {rate : Bps}
    {periods : UInt64} {plan : FundingPlan} {index : Decimal} {now : Instant}
    (hplan : FundingPlan.make l market rate periods = .ok plan)
    (hbooked : l.applyFunding (plan.payments.map fun p => (p.position, p.amount)) index now
      = .ok next) :
    l.Tells (plan.payments.map fun p => .fundingPaid ⟨market, p.position, p.owner, p.amount⟩)
      next := by
  unfold Ledger.applyFunding at hbooked
  simp only [bind_eq_ok, mapM_eq_ok, pure_eq_ok] at hbooked
  obtain ⟨totals, htotals, rfl⟩ := hbooked
  have hnodup : ((plan.payments.map fun p => (p.position, p.amount)).map (·.1)).Nodup := by
    rw [List.map_map]
    exact FundingPlan.payments_nodup hindexed hplan
  have hreplay := Ledger.replay_bookings htotals hnodup index now fun _ _ => rfl
  refine ⟨?_, fun closed hclosed => ?_⟩
  · rw [List.foldlM_map] at hreplay ⊢
    exact hreplay
  · obtain ⟨payment, -, hclosed⟩ := List.mem_map.1 hclosed
    cases hclosed

theorem settlementEvents_tell (hindexed : l.WellIndexed) {b book : FundingBook}
    {market : MarketId} {now : Instant} {s : FundingSettlement}
    (hx : b.settle market l now = .ok (s, book, next)) : l.Tells (settlementEvents s) next := by
  rcases FundingBook.settle_eq_ok hx with
    ⟨rfl, rfl⟩ | ⟨rate, periods, plan, index, hplan, hbooked, rfl⟩
  · exact .silent rfl
  · have htell := fundingPaid_tell hindexed hplan hbooked
    unfold settlementEvents
    dsimp only
    split
    · exact htell.cons_quiet fun _ => rfl
    · exact htell

/-! ### Calls -/

theorem quiet_queueChanges {before after : DeleverageQueue} {market : MarketId} {e : Payload}
    (he : e ∈ queueChanges before after market) : e.Quiet := by
  obtain ⟨side, -, he⟩ := List.mem_filterMap.1 he
  dsimp only at he
  split at he
  · cases he
  · cases he
    exact fun _ => rfl

/-- **An accepted call tells what it did.** -/
theorem Acts.tells {call : Call} {reply : Reply} {next : House} (hindexed : h.ledger.WellIndexed)
    (hacts : h.Acts call reply next) :
    ∃ payloads, next.journal = h.journal.recordAll h.now payloads ∧
      h.ledger.Tells payloads next.ledger := by
  cases hacts with
  | supplied => exact ⟨[], rfl, .silent rfl⟩
  | @opened caller order posted running posts =>
    obtain ⟨-, price, notice, -, -, -, -, -, -, hopens⟩ := Ledger.openPosition_terms posts
    refine ⟨_, rfl, .append_quiet ?_ fun e => quiet_queueChanges⟩
    have hid : posted.result = (order.toPosition posted.result price h.now).id := rfl
    have hheld := hopens.position? posted.result
    rw [if_pos hid] at hheld
    rw [hheld]
    exact hopens.tells hindexed rfl
  | @modified caller id sizeDelta collateralDelta before price posted held running posts =>
    obtain ⟨current, tier, p, notice, hcurrent, -, -, ⟨hsame, hfunding, -, -⟩, -, -, -, hamends⟩ :=
      Ledger.modify_terms posts
    obtain rfl : current = before := Option.some.inj (hcurrent.symm.trans held)
    refine ⟨_, rfl, .append_quiet ?_ fun e => quiet_queueChanges⟩
    have hid : id = p.id :=
      ((Position.id_eq_of_identity hsame).trans (hindexed.stored id current held)).symm
    have hheld := hamends.position? id
    rw [if_pos hid] at hheld
    rw [hheld]
    exact hamends.tells hindexed.stored held hsame hfunding posted.result
  | closed nobody running notices closes =>
    refine ⟨_, rfl, .append_quiet ?_ fun e => quiet_queueChanges⟩
    refine (closes.tells hindexed.stored _ _ _).append_quiet fun e he => ?_
    obtain ⟨liquidated, -, rfl⟩ := List.mem_map.1 he
    exact fun _ => rfl
  | deleveraged running executed =>
    exact ⟨_, rfl, ((touchedEvents_tell hindexed executed).append_quiet fun e =>
      quiet_queueChanges).cons_quiet fun _ => rfl⟩
  | refreshed running posts =>
    exact ⟨_, rfl, .of_quiet (fun e => quiet_queueChanges)
      (Ledger.holdings_refreshMarket hindexed.stored posts)⟩
  | settled running settles => exact ⟨_, rfl, settlementEvents_tell hindexed settles⟩
  | margined nobody replaces told =>
    refine ⟨_, rfl, .of_quiet (fun e he => ?_) rfl⟩
    obtain ⟨update, rfl⟩ := told e he
    exact fun _ => rfl
  | configured nobody configures told =>
    refine ⟨_, rfl, .of_quiet (fun e he => ?_) rfl⟩
    obtain ⟨update, rfl⟩ := told e he
    exact fun _ => rfl
  | toggled nobody toggles told =>
    refine ⟨_, rfl, .of_quiet (fun e he => ?_) rfl⟩
    obtain ⟨update, rfl⟩ := told e he
    exact fun _ => rfl
  | funded => exact ⟨[], rfl, .silent rfl⟩

/-! ### Runs -/

/-- Where nothing is missing from the journal, it tells of all open positions. -/
structure Journaled (h : House) : Prop where
  sound : h.journal.Sound
  replays : h.journal.Complete → h.journal.replay = some h.ledger.holdings

/-- After an accepted call the journal holds what it held before, and then what the call told. -/
theorem Journaled.acts {call : Call} {reply : Reply} {next : House} (hjournaled : h.Journaled)
    (hindexed : h.ledger.WellIndexed) (hacts : h.Acts call reply next) :
    next.Journaled ∧ (next.journal.Complete → ∃ told,
      next.journal.events = h.journal.events ++ told ∧
        h.ledger.Tells (told.map (·.payload)) next.ledger) := by
  obtain ⟨payloads, hjournal, htells⟩ := hacts.tells hindexed
  have htold : next.journal.Complete → h.journal.Complete ∧ ∃ told,
      next.journal.events = h.journal.events ++ told ∧ told.map (·.payload) = payloads := by
    rw [hjournal]
    exact fun hcomplete => hcomplete.of_recordAll hjournaled.sound
  refine ⟨⟨?_, fun hcomplete => ?_⟩, fun hcomplete => ?_⟩
  · rw [hjournal]
    exact hjournaled.sound.recordAll h.now payloads
  · obtain ⟨hbefore, told, hevents, rfl⟩ := htold hcomplete
    have hreplay := hjournaled.replays hbefore
    unfold Journal.replay at hreplay ⊢
    rw [hevents, List.map_append, List.foldlM_append, hreplay]
    exact htells.replays
  · obtain ⟨-, told, hevents, rfl⟩ := htold hcomplete
    exact ⟨told, hevents, htells⟩

theorem journal_install {m : Listing} {next : House} (hx : h.install m = .ok next) :
    next.limits = h.limits ∧ next.journal = h.journal := by
  unfold install at hx
  simp only [bind_eq_ok, mapError_eq_ok, pure_eq_ok] at hx
  obtain ⟨⟨_, schedule⟩, -, ⟨_, queue⟩, -, ⟨_, funding⟩, -, rfl⟩ := hx
  exact ⟨rfl, rfl⟩

/-- The journal of a new house is empty, and as large as its limits say. -/
theorem Founded.journal_eq (hfounded : h.Founded) :
    h.journal = .empty h.limits.maxEvents.toNat := by
  cases hfounded with
  | empty limits => rfl
  | ofSetup built =>
    unfold House.ofSetup at built
    rw [bind_eq_ok] at built
    obtain ⟨-, -, built⟩ := built
    refine foldlM_invariant (P := fun h => h.journal = .empty h.limits.maxEvents.toNat) ?_
      rfl built
    intro h m _ next hjournal hinstall
    obtain ⟨hlimits, hsame⟩ := journal_install hinstall
    rw [hsame, hlimits, hjournal]

theorem Founded.journal_eq_empty (hfounded : h.Founded) :
    ∃ capacity, h.journal = .empty capacity :=
  ⟨_, hfounded.journal_eq⟩

/-- A new house has nothing to tell. -/
theorem Founded.journaled (hfounded : h.Founded) : h.Journaled := by
  obtain ⟨capacity, hjournal⟩ := hfounded.journal_eq_empty
  refine ⟨hjournal ▸ Journal.sound_empty capacity, fun _ => ?_⟩
  rw [hjournal, hfounded.unused.1]
  rfl

theorem Journaled.run {start : House} {calls : List Call} {ts : List Touch}
    (hjournaled : start.Journaled) (hsynced : start.Synced ts)
    (hrun : start.run calls = .ok h) : h.Journaled := by
  suffices h.Journaled ∧ ∃ ts, h.Synced ts from this.1
  refine run_invariant (P := fun h => h.Journaled ∧ ∃ ts, h.Synced ts) ?_
    ⟨hjournaled, ts, hsynced⟩ hrun
  rintro h ⟨hjournaled, ts, hsynced⟩ call - reply next hacts
  exact ⟨(hjournaled.acts hsynced.indexed hacts).1, _, hsynced.moves hacts.moves⟩

/-- **The journal leads to the open positions.**  In every house that a run of calls reaches,
reading the events from the beginning gives the open positions as they are, where no event was
dropped; and each closing that the next call tells of quotes the size from before that call. -/
theorem run_replays {start : House} (hfounded : start.Founded) {calls : List Call}
    (hrun : start.run calls = .ok h) :
    (h.journal.Complete → h.journal.replay = some h.ledger.holdings) ∧
      ∀ call answered next, h.perform call = .ok (answered, next) → next.journal.Complete →
        ∃ told, next.journal.events = h.journal.events ++ told ∧
          ∀ e ∈ told, ∀ closed, e.payload = .positionClosed closed →
            (h.ledger.position? closed.position).map (·.size) = some closed.size := by
  have hjournaled := hfounded.journaled.run hfounded.synced hrun
  have hindexed := (hfounded.synced.run hrun).indexed
  refine ⟨hjournaled.replays, fun call answered next hperform hcomplete => ?_⟩
  rcases orStay_eq_ok.1 hperform with ⟨reply, -, hanswer⟩ | ⟨_, -, -, rfl⟩
  · obtain ⟨told, hevents, htells⟩ :=
      (hjournaled.acts hindexed (answer_acts hanswer)).2 hcomplete
    refine ⟨told, hevents, fun e he closed hclosed => htells.closings closed ?_⟩
    exact List.mem_map.2 ⟨e, he, hclosed⟩
  · exact ⟨[], (List.append_nil _).symm, List.forall_mem_nil _⟩

/-- Two longs gain, pay funding to a short, and are taken to cover another one: one of them whole,
the other in part. -/
def sampleStory : List Call :=
  [.configureMargin ⟨9⟩ ⟨1⟩ .standard,
    .configureDeleverage ⟨9⟩ ⟨1⟩ ⟨100⟩ 5 0,
    .configureFunding ⟨9⟩ ⟨1⟩ .standard,
    .openPosition ⟨9⟩ (Ledger.sampleOrder ⟨1⟩ .long (.ofUInt32 2)),
    .openPosition ⟨9⟩ (Ledger.sampleOrder ⟨2⟩ .long (.ofUInt32 3)),
    .openPosition ⟨9⟩ (Ledger.sampleOrder ⟨3⟩ .short .one),
    .replacePrices (PriceBook.empty.setPrice ⟨1⟩ (.ofUInt32 110) .epoch),
    .modifyPosition ⟨9⟩ ⟨1⟩ .one .one,
    .refreshMarket ⟨9⟩ ⟨1⟩,
    .setTime ⟨28800000⟩,
    .settleFunding ⟨9⟩ ⟨1⟩,
    .executeDeleverage ⟨9⟩ ⟨⟨1⟩, ⟨7⟩, .short, .ofUInt32 4, .ofUInt32 110⟩]

/-- All that changes a position is in the journal, and so is the closing of the short after it. -/
theorem run_replays_story :
    ∃ h mid, sampleHouse.run sampleStory = .ok h ∧
      h.perform (.closePosition ⟨9⟩ ⟨3⟩) = .ok mid ∧
      (h.journal.Complete ∧ mid.2.journal.Complete ∧ h.ledger.position? ⟨2⟩ = none ∧
        (h.ledger.position? ⟨1⟩).isSome ∧ mid.2.ledger.position? ⟨3⟩ = none) ∧
      h.journal.replay = some h.ledger.holdings ∧
      ∃ told, mid.2.journal.events = h.journal.events ++ told ∧
        ∀ e ∈ told, ∀ closed, e.payload = .positionClosed closed →
          (h.ledger.position? closed.position).map (·.size) = some closed.size := by
  obtain ⟨h, hrun, htest⟩ := exists_of_succeedsWith
    (fun h : House => succeedsWith (fun mid : Except HouseError Reply × House =>
        decide (h.journal.Complete ∧ mid.2.journal.Complete ∧ h.ledger.position? ⟨2⟩ = none ∧
          (h.ledger.position? ⟨1⟩).isSome ∧ mid.2.ledger.position? ⟨3⟩ = none))
      (h.perform (.closePosition ⟨9⟩ ⟨3⟩)))
    (x := sampleHouse.run sampleStory) (by decide +kernel)
  obtain ⟨mid, hmid, htest⟩ := exists_of_succeedsWith _ htest
  have hseen := of_decide_eq_true htest
  obtain ⟨hreplays, hnext⟩ := run_replays (.empty _ _ _ _) hrun
  exact ⟨h, mid, hrun, hmid, hseen, hreplays hseen.1, hnext _ _ _ hmid hseen.2.1⟩

end House

end Clearing

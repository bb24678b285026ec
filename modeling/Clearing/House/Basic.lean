import Clearing.Deleverage.Execution
import Clearing.Event.Journal
import Clearing.Funding.Book
import Clearing.House.Error
import Clearing.PriceBook
import Clearing.Setup.Basic

/-!
The clearing house: every component in one state, behind gates.

A call passes three gates before it reaches a component: the caller must have the role, the
activity must not be paused and the market not halted, and where a price is needed there must be
one.  What a call did is written into the journal after the components have changed; a call that
is refused writes nothing.
-/

namespace Clearing

/-- The state of a clearing house. -/
structure House where
  limits : Limits
  schedule : MarginSchedule
  ledger : Ledger
  queue : DeleverageQueue
  funding : FundingBook
  journal : Journal
  names : Table MarketId String
  roles : Roles
  prices : PriceBook
  safeguards : Safeguards
  now : Instant
deriving DecidableEq

namespace House

/-- A house without markets. -/
def empty (limits : Limits) (roles : Roles) (prices : PriceBook) (safeguards : Safeguards) :
    House where
  limits := limits
  schedule := .empty
  ledger := .empty
  queue := .empty limits.maxExecutions.toNat
  funding := .empty
  journal := .empty limits.maxEvents.toNat
  names := .empty
  roles := roles
  prices := prices
  safeguards := safeguards
  now := .epoch

/-- Lists a market with its terms. -/
def install (h : House) (m : Listing) : Except SetupError House := do
  let (_, schedule) ← (h.schedule.install m.market m.margin).mapError .margin
  let (_, queue) ← (h.queue.configure m.market m.deleverage).mapError .deleverage
  let (_, funding) ← (h.funding.configure m.market m.funding h.now).mapError .funding
  return { h with
    schedule := schedule
    queue := queue
    funding := funding
    names := h.names.insert m.market m.name }

/-- The house that a setup describes. -/
def ofSetup (setup : Setup) (roles : Roles) (prices : PriceBook) (safeguards : Safeguards) :
    Except SetupError House := do
  setup.validate
  setup.markets.foldlM install (empty setup.limits roles prices safeguards)

/-- Sets the clock. -/
def setTime (h : House) (now : Instant) : House :=
  { h with now := now }

/-- Moves the clock. -/
def advanceTime (h : House) (millis : Int64) : House :=
  { h with now := ⟨h.now.millis + millis⟩ }

/-! ### Queries -/

/-- The name of a listed market. -/
def name? (h : House) (market : MarketId) : Option String :=
  h.names.get? market

/-- The rate that a settlement would charge now. -/
def previewRate (h : House) (market : MarketId) : Except (Failure HouseError) Bps :=
  inTermsOf .funding (h.funding.previewRate market h.ledger)

/-- The seconds until funding can be settled. -/
def secondsUntilFunding (h : House) (market : MarketId) : Except HouseError UInt64 :=
  (h.funding.secondsUntilNext market h.now).mapError .funding

/-! ### Gates -/

/-- A call can be refused, or stop at an unchecked sum. -/
abbrev Attempt := Except (Failure HouseError)

/-- The caller must have a role. -/
def requireRole (h : House) (role : Role) (caller : AccountId) :
    Attempt Unit :=
  if h.roles.holds role caller then .ok () else refuse (.unauthorized role caller)

/-- The activity must not be paused, nor the market halted. -/
def requireRunning (h : House) (activity : Activity) (market : MarketId) :
    Attempt Unit :=
  if h.safeguards.isPaused activity then refuse (.paused activity)
  else if h.safeguards.isTripped market then refuse (.tripped market)
  else .ok ()

/-- The price of a market, which must have one. -/
def requirePrice (h : House) (market : MarketId) : Attempt Price :=
  match h.prices.update? market with
  | some update => .ok update.price
  | none => refuse (.noPrice market)

/-- An open position. -/
def requirePosition (h : House) (id : PositionId) : Attempt Position :=
  refusing .ledger (h.ledger.find id)

/-! ### Events -/

/-- Writes events with the time of the call. -/
def record (h : House) (payloads : List Payload) : House :=
  { h with journal := h.journal.recordAll h.now payloads }

/-- The events about the sides of a market whose number of candidates differs between two states. -/
def queueChanges (before after : DeleverageQueue) (market : MarketId) : List Payload :=
  [Side.long, Side.short].filterMap fun side =>
    let old := before.length ⟨market, side⟩
    let new := after.length ⟨market, side⟩
    if old = new then none else some (.queueLengthChanged ⟨market, side, old, new⟩)

/-- Takes over what was posted to the ledger: the queue reads the notices, and the journal gets
the events of the call and then the changes in the queue. -/
def post {α : Type} (h : House) (market : MarketId) (posted : Ledger.Posted α)
    (events : List Payload) : House :=
  let queue := h.queue.notifyAll posted.notices
  { h with ledger := posted.ledger, queue := queue }.record
    (events ++ queueChanges h.queue queue market)

end House

end Clearing

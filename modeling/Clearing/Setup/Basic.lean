import Clearing.Deleverage.Terms
import Clearing.Funding.Terms
import Clearing.Text.Blank

/-!
The setup of a clearing house: its limits, and the markets it lists with all their terms.

A setup is checked as a whole before a house is built from it.  Three presets cover development,
test networks and live trading.
-/

namespace Clearing

/-- How much a clearing house remembers. -/
structure Limits where
  maxEvents : UInt64
  maxExecutions : UInt64
deriving DecidableEq

/-- A hundred thousand events and a thousand executions. -/
def Limits.standard : Limits := ⟨100000, 1000⟩

/-- A market with all its terms. -/
structure Listing where
  market : MarketId
  name : String
  margin : MarginTier
  deleverage : DeleverageTerms
  funding : FundingTerms
deriving DecidableEq

/-- A market with standard terms. -/
def Listing.standard (market : MarketId) (name : String) : Listing :=
  ⟨market, name, .standard, .standard, .standard⟩

/-- Limits and listed markets. -/
structure Setup where
  limits : Limits
  markets : List Listing
deriving DecidableEq

/-- What is wrong with a setup, or with its text. -/
inductive SetupError where
  | invalidLimits (reason : String)
  | invalidMarket (market : MarketId) (reason : String)
  | duplicateMarket (market : MarketId)
  | margin (cause : MarginError)
  | deleverage (cause : DeleverageError)
  | funding (cause : FundingError)
  | malformed
deriving DecidableEq

/-- The error in words. -/
def SetupError.message : SetupError → String
  | invalidLimits reason => s!"Invalid engine settings: {reason}"
  | invalidMarket market reason => s!"Invalid market {market.text}: {reason}"
  | duplicateMarket market => s!"Market {market.text} configured twice"
  | margin cause => cause.message
  | deleverage cause => cause.message
  | funding cause => cause.message
  | malformed => "Malformed config json"

/-- Refuses a market without a name, or with terms that have a defect. -/
def Listing.validate (m : Listing) : Except SetupError Unit := do
  if isBlankText m.name then throw (.invalidMarket m.market "name must not be empty")
  m.margin.validate.mapError .margin
  m.deleverage.validate.mapError .deleverage
  m.funding.validate.mapError .funding

namespace Setup

/-- Checks listings in turn, each against the markets listed before it. -/
def validateMarkets : (seen : List MarketId) → List Listing → Except SetupError Unit
  | _, [] => .ok ()
  | seen, m :: rest => do
    if m.market ∈ seen then throw (.duplicateMarket m.market)
    m.validate
    validateMarkets (m.market :: seen) rest

/-- Refuses a setup that remembers nothing, lists a market twice, or has a bad listing. -/
def validate (s : Setup) : Except SetupError Unit := do
  if s.limits.maxEvents = 0 then
    throw (.invalidLimits "event log must hold at least 1 event")
  if s.limits.maxExecutions = 0 then
    throw (.invalidLimits "adl history must hold at least 1 record")
  validateMarkets [] s.markets

/-- The listing of a market. -/
def listing? (s : Setup) (market : MarketId) : Option Listing :=
  s.markets.find? (·.market = market)

/-- Two markets on standard limits. -/
def standard : Setup where
  limits := .standard
  markets :=
    [.standard ⟨1⟩ "ETH-PERP",
      { Listing.standard ⟨2⟩ "BTC-PERP" with margin := ⟨⟨400⟩, ⟨800⟩, ⟨25⟩, true⟩ }]

/-- Loose margins, hourly funding, and no wait between executions. -/
def testnet : Setup :=
  { standard with
    markets := standard.markets.map fun m =>
      { m with
        name := s!"{m.name} Testnet"
        margin := ⟨⟨100⟩, ⟨200⟩, ⟨50⟩, true⟩
        deleverage := { m.deleverage with gracePeriod := 0 }
        funding := { m.funding with period := 3600 } } }

/-- Conservative terms and a longer memory of events. -/
def mainnet : Setup where
  limits := { Limits.standard with maxEvents := 1000000 }
  markets := standard.markets.map fun m =>
    { m with
      margin := ⟨⟨600⟩, ⟨1000⟩, ⟨10⟩, true⟩
      deleverage := { m.deleverage with maxPositions := 20, gracePeriod := 300 }
      funding := { m.funding with maxRate := ⟨100⟩ } }

end Setup

/-- Where a clearing house runs. -/
inductive Environment where
  | development
  | testnet
  | mainnet
deriving DecidableEq

/-- The preset for an environment. -/
def Environment.setup : Environment → Setup
  | development => .standard
  | testnet => .testnet
  | mainnet => .mainnet

end Clearing

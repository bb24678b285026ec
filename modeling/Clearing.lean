import Clearing.Decimal.Arithmetic
import Clearing.Decimal.Basic
import Clearing.Decimal.Checked
import Clearing.Decimal.Exponent
import Clearing.Decimal.Text
import Clearing.Deleverage.Candidate
import Clearing.Deleverage.Execution
import Clearing.Deleverage.Operation
import Clearing.Deleverage.Queue
import Clearing.Deleverage.Ranking
import Clearing.Deleverage.Terms
import Clearing.Double.Basic
import Clearing.Double.Shortest
import Clearing.Event.Journal
import Clearing.Event.Payload
import Clearing.Event.Replay
import Clearing.Failure
import Clearing.Format.Deleverage
import Clearing.Format.Event
import Clearing.Format.Funding
import Clearing.Format.Gates
import Clearing.Format.Margin
import Clearing.Format.Outcome
import Clearing.Format.Position
import Clearing.Format.Setup
import Clearing.Format.Units
import Clearing.Funding.Book
import Clearing.Funding.Operation
import Clearing.Funding.Plan
import Clearing.Funding.Rate
import Clearing.Funding.Terms
import Clearing.House.Administration
import Clearing.House.Basic
import Clearing.House.Call
import Clearing.House.Error
import Clearing.House.Trading
import Clearing.House.Upkeep
import Clearing.Identifier
import Clearing.InPlace.Deleverage
import Clearing.InPlace.Edit
import Clearing.InPlace.House
import Clearing.InPlace.Ledger
import Clearing.InPlace.Operation
import Clearing.InPlace.Settlement
import Clearing.InPlace.Terms
import Clearing.Instant
import Clearing.Json.Basic
import Clearing.Json.Codec
import Clearing.Json.Number
import Clearing.Json.Reader
import Clearing.Json.Text
import Clearing.Json.Token
import Clearing.Json.Writer
import Clearing.Ledger.Basic
import Clearing.Ledger.Mark
import Clearing.Ledger.Operation
import Clearing.Ledger.Trade
import Clearing.Main
import Clearing.Margin.Schedule
import Clearing.Margin.Tier
import Clearing.Measure
import Clearing.Position.Basic
import Clearing.Position.OpenInterest
import Clearing.Position.Portfolio
import Clearing.PriceBook
import Clearing.Proofs.Decimal.Checked
import Clearing.Proofs.Decimal.Products
import Clearing.Proofs.Decimal.Ratio
import Clearing.Proofs.Decimal.Rounding
import Clearing.Proofs.Decimal.Signs
import Clearing.Proofs.Decimal.Text
import Clearing.Proofs.Decimal.Units
import Clearing.Proofs.Decimal.Value
import Clearing.Proofs.Deleverage.Amounts
import Clearing.Proofs.Deleverage.Arrivals
import Clearing.Proofs.Deleverage.Coverage
import Clearing.Proofs.Deleverage.Execution
import Clearing.Proofs.Deleverage.Grace
import Clearing.Proofs.Deleverage.Heeding
import Clearing.Proofs.Deleverage.Ladder
import Clearing.Proofs.Deleverage.Lanes
import Clearing.Proofs.Deleverage.Mirror
import Clearing.Proofs.Deleverage.Order
import Clearing.Proofs.Deleverage.Priority
import Clearing.Proofs.Deleverage.Ranking
import Clearing.Proofs.Deleverage.Record
import Clearing.Proofs.Deleverage.Turns
import Clearing.Proofs.Deleverage.Unchecked
import Clearing.Proofs.Deleverage.Walk
import Clearing.Proofs.Event.Journal
import Clearing.Proofs.Failure
import Clearing.Proofs.Format.Event
import Clearing.Proofs.Format.Setup
import Clearing.Proofs.Format.Units
import Clearing.Proofs.Funding.Account
import Clearing.Proofs.Funding.Booking
import Clearing.Proofs.Funding.Conservation
import Clearing.Proofs.Funding.Enabled
import Clearing.Proofs.Funding.Plan
import Clearing.Proofs.Funding.Preview
import Clearing.Proofs.Funding.Rate
import Clearing.Proofs.Funding.Receivers
import Clearing.Proofs.Funding.Settlement
import Clearing.Proofs.Funding.Waiting
import Clearing.Proofs.House.Authority
import Clearing.Proofs.House.Bounds
import Clearing.Proofs.House.Calls
import Clearing.Proofs.House.Candidates
import Clearing.Proofs.House.Course
import Clearing.Proofs.House.Halt
import Clearing.Proofs.House.Installation
import Clearing.Proofs.House.Isolation
import Clearing.Proofs.House.Lengths
import Clearing.Proofs.House.Moves
import Clearing.Proofs.House.Numbering
import Clearing.Proofs.House.Replay
import Clearing.Proofs.House.Terms
import Clearing.Proofs.House.Unchecked
import Clearing.Proofs.InPlace.Components
import Clearing.Proofs.InPlace.Deferred
import Clearing.Proofs.InPlace.Edit
import Clearing.Proofs.InPlace.EntryPoints
import Clearing.Proofs.InPlace.House
import Clearing.Proofs.InPlace.Ledger
import Clearing.Proofs.Instant
import Clearing.Proofs.Json.Codec
import Clearing.Proofs.Json.Quoted
import Clearing.Proofs.Json.RoundTrip
import Clearing.Proofs.Json.Spelling
import Clearing.Proofs.Latest
import Clearing.Proofs.Ledger.Admission
import Clearing.Proofs.Ledger.Assessments
import Clearing.Proofs.Ledger.Bookings
import Clearing.Proofs.Ledger.Continuity
import Clearing.Proofs.Ledger.Desk
import Clearing.Proofs.Ledger.Dormant
import Clearing.Proofs.Ledger.Drift
import Clearing.Proofs.Ledger.Figures
import Clearing.Proofs.Ledger.History
import Clearing.Proofs.Ledger.Holdings
import Clearing.Proofs.Ledger.Indices
import Clearing.Proofs.Ledger.Interchange
import Clearing.Proofs.Ledger.Isolation
import Clearing.Proofs.Ledger.Margins
import Clearing.Proofs.Ledger.Marking
import Clearing.Proofs.Ledger.OpenInterest
import Clearing.Proofs.Ledger.Portfolios
import Clearing.Proofs.Ledger.Positivity
import Clearing.Proofs.Ledger.Reduction
import Clearing.Proofs.Ledger.Remarking
import Clearing.Proofs.Ledger.Runs
import Clearing.Proofs.Ledger.Shares
import Clearing.Proofs.Ledger.Solvency
import Clearing.Proofs.Ledger.Steps
import Clearing.Proofs.Ledger.Unchecked
import Clearing.Proofs.Ledger.Underflow
import Clearing.Proofs.Ledger.Views
import Clearing.Proofs.Position.Liquidation
import Clearing.Proofs.Position.Quantities
import Clearing.Proofs.Position.Rollup
import Clearing.Proofs.Run
import Clearing.Proofs.Table
import Clearing.Roles
import Clearing.Run
import Clearing.Safeguards
import Clearing.Setup.Basic
import Clearing.Simulation
import Clearing.Table
import Clearing.Text.Blank

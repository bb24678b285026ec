import Clearing.Deleverage.Queue
import Clearing.Funding.Book
import Clearing.InPlace.Edit
import Clearing.Margin.Schedule

/-!
Installing and switching terms, in place.
-/

namespace Clearing

namespace MarginSchedule

namespace InPlace

/-- Installs a tier, and returns any earlier one. -/
def install (market : MarketId) (tier : MarginTier) :
    Edit MarginSchedule MarginError (Option MarginTier) := do
  .attempt (refusing id tier.validate)
  let earlier ← .read (·.tier? market)
  .write fun s => ⟨s.tiers.insert market tier⟩
  return earlier

/-- Switches a configured market on or off. -/
def setActive (market : MarketId) (active : Bool) : Edit MarginSchedule MarginError Unit := do
  let some tier ← .read (·.tier? market) | .attempt (refuse (.notConfigured market))
  .write fun s => ⟨s.tiers.insert market { tier with active := active }⟩

end InPlace

end MarginSchedule

namespace DeleverageQueue

namespace InPlace

/-- Installs terms, which are active from then on, and returns the earlier ones. -/
def configure (market : MarketId) (terms : DeleverageTerms) :
    Edit DeleverageQueue DeleverageError (Option DeleverageTerms) := do
  .attempt (refusing id terms.validate)
  let earlier ← .read (·.terms? market)
  .write fun q => { q with terms := q.terms.insert market { terms with active := true } }
  return earlier

/-- Switches the terms of a market, and says whether they are active now. -/
def toggle (market : MarketId) : Edit DeleverageQueue DeleverageError Bool := do
  let some terms ← .read (·.terms? market) | .attempt (refuse (.notConfigured market))
  .write fun q => { q with terms := q.terms.insert market { terms with active := !terms.active } }
  return !terms.active

end InPlace

end DeleverageQueue

namespace FundingBook

namespace InPlace

/-- Installs terms, and returns the earlier ones; a new market's clock starts. -/
def configure (market : MarketId) (terms : FundingTerms) (now : Instant) :
    Edit FundingBook FundingError (Option FundingTerms) := do
  .attempt (refusing id terms.validate)
  .write fun b =>
    { b with
      states := if b.states.contains market then b.states
        else b.states.insert market (.start now) }
  let earlier ← .read (·.terms? market)
  .write fun b => { b with terms := b.terms.insert market terms }
  return earlier

end InPlace

end FundingBook

end Clearing

import Clearing.Identifier
import Clearing.Instant
import Clearing.Measure

/-!
The latest price of each market.

How fresh a price is, nobody here judges: the last one submitted is the price.
-/

namespace Clearing

/-- A price with its confidence and its time. -/
structure PriceUpdate where
  price : Price
  confidence : Decimal
  timestamp : Instant
deriving DecidableEq

/-- The latest update of each market. -/
structure PriceBook where
  updates : Table MarketId PriceUpdate
deriving DecidableEq

namespace PriceBook

/-- No market has a price. -/
def empty : PriceBook := ⟨.empty⟩

/-- The latest update of a market. -/
def update? (b : PriceBook) (market : MarketId) : Option PriceUpdate :=
  b.updates.get? market

/-- Replaces the update of a market. -/
def submit (b : PriceBook) (market : MarketId) (update : PriceUpdate) : PriceBook :=
  ⟨b.updates.insert market update⟩

/-- Sets a price that is quoted without a confidence. -/
def setPrice (b : PriceBook) (market : MarketId) (price : Price) (now : Instant) : PriceBook :=
  b.submit market ⟨price, .zero, now⟩

/-- Takes the price of a market away, and returns it. -/
def clear (b : PriceBook) (market : MarketId) : Option PriceUpdate × PriceBook :=
  (b.update? market, ⟨b.updates.erase market⟩)

end PriceBook

end Clearing

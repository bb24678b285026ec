import Clearing.Identifier
import Clearing.Instant
import Clearing.Json.Codec
import Clearing.Measure

/-!
How identifiers, sides and units are written.

Identifiers and units are plain numbers, and sides are names.  What is read is not held to the
bounds that trading puts on it: a price may come out negative, and a leverage zero.
-/

namespace Clearing

open Codec

instance : Codec MarketId := wrapping MarketId.mk MarketId.val

instance : Codec AccountId := wrapping AccountId.mk AccountId.val

instance : Codec PositionId := wrapping PositionId.mk PositionId.val

instance : Codec Leverage := wrapping Leverage.mk Leverage.val

instance : Codec Bps := wrapping Bps.mk Bps.val

instance : Codec Instant := wrapping Instant.mk Instant.millis

instance : KeyCodec MarketId := numberKey MarketId.mk fun m => m.val.toNat

/-- The names of the sides. -/
def Side.names : List (String × Side) :=
  [("Long", .long), ("Short", .short)]

instance : Codec Side := choice Side.names

end Clearing

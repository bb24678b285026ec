import Clearing.Format.Units
import Clearing.House.Error
import Clearing.PriceBook

/-!
How roles, safeguards, prices and kinds of errors are written.
-/

namespace Clearing

open Codec

/-- The names of the roles. -/
def Role.names : List (String × Role) :=
  [("TradingEntry", .tradingEntry), ("Liquidator", .liquidator), ("RiskManager", .riskManager),
    ("Keeper", .keeper)]

instance : Codec Role := choice Role.names

instance : KeyCodec Role := choiceKey Role.names

instance : Codec (KeySet AccountId) := keySet

/-- The names of the fields of the roles that are granted. -/
def Roles.fieldNames : List String :=
  ["grants"]

instance : Codec Roles where
  encode x := record Roles.fieldNames [.of x.grants]
  decode j := do
    let [grants] ← fieldsOf? Roles.fieldNames j | none
    return { grants := ← field grants }

/-- The names of the activities. -/
def Activity.names : List (String × Activity) :=
  [("Positions", .positions), ("Adl", .deleveraging), ("Funding", .funding)]

instance : Codec Activity := choice Activity.names

instance : Codec (KeySet Activity) := keySet

instance : Codec HaltReason where
  encode
    | .manual reason => .ofFields [("ManualHalt", record ["reason"] [.of reason])]
  decode j := do
    let ("ManualHalt", held) ← caseOf? j | none
    let [reason] ← fieldsOf? ["reason"] held | none
    return .manual (← field reason)

/-- The names of the fields of a breaker. -/
def Breaker.fieldNames : List String :=
  ["reason", "triggered_at"]

instance : Codec Breaker where
  encode x := record Breaker.fieldNames [.of x.reason, .of x.triggeredAt]
  decode j := do
    let [reason, triggeredAt] ← fieldsOf? Breaker.fieldNames j | none
    return { reason := ← field reason, triggeredAt := ← field triggeredAt }

/-- The names of the fields of the safeguards. -/
def Safeguards.fieldNames : List String :=
  ["paused", "tripped", "cooldown_ms"]

instance : Codec Safeguards where
  encode x := record Safeguards.fieldNames [.of x.paused, .of x.breakers, .of x.cooldown]
  decode j := do
    let [paused, breakers, cooldown] ← fieldsOf? Safeguards.fieldNames j | none
    return { paused := ← field paused, breakers := ← field breakers, cooldown := ← field cooldown }

/-- The names of the fields of a price update. -/
def PriceUpdate.fieldNames : List String :=
  ["price", "confidence", "timestamp"]

instance : Codec PriceUpdate where
  encode x := record PriceUpdate.fieldNames [.of x.price, .of x.confidence, .of x.timestamp]
  decode j := do
    let [price, confidence, timestamp] ← fieldsOf? PriceUpdate.fieldNames j | none
    return {
      price := ← field price, confidence := ← field confidence, timestamp := ← field timestamp }

/-- The names of the kinds of errors. -/
def ErrorKind.names : List (String × ErrorKind) :=
  [("Authorization", .authorization), ("NotFound", .notFound), ("Validation", .validation),
    ("Timing", .timing), ("StateGate", .stateGate), ("Capacity", .capacity),
    ("Arithmetic", .arithmetic)]

instance : Codec ErrorKind := choice ErrorKind.names

end Clearing

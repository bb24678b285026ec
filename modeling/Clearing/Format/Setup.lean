import Clearing.Format.Deleverage
import Clearing.Format.Funding
import Clearing.Format.Margin
import Clearing.Json.Writer
import Clearing.Setup.Basic

/-!
How setups are written, and what a text must hold to be one.

A setup is written over indented lines.  A text is read as a setup only if what it spells passes
the checks of a setup.
-/

namespace Clearing

open Codec

/-- The names of the fields of the limits. -/
def Limits.fieldNames : List String :=
  ["max_events", "max_adl_history"]

instance : Codec Limits where
  encode x := record Limits.fieldNames [.of x.maxEvents, .of x.maxExecutions]
  decode j := do
    let [maxEvents, maxExecutions] ← fieldsOf? Limits.fieldNames j | none
    return { maxEvents := ← field maxEvents, maxExecutions := ← field maxExecutions }

/-- The names of the fields of a listing. -/
def Listing.fieldNames : List String :=
  ["market_id", "name", "risk", "adl", "funding"]

instance : Codec Listing where
  encode x := record Listing.fieldNames [.of x.market, .of x.name, .of x.margin, .of x.deleverage,
    .of x.funding]
  decode j := do
    let [market, name, margin, deleverage, funding] ← fieldsOf? Listing.fieldNames j | none
    return {
      market := ← field market, name := ← field name, margin := ← field margin,
      deleverage := ← field deleverage, funding := ← field funding }

/-- The names of the fields of a setup. -/
def Setup.fieldNames : List String :=
  ["engine", "markets"]

instance : Codec Setup where
  encode x := record Setup.fieldNames [.of x.limits, .of x.markets]
  decode j := do
    let [limits, markets] ← fieldsOf? Setup.fieldNames j | none
    return { limits := ← field limits, markets := ← field markets }

/-- The names of the environments. -/
def Environment.names : List (String × Environment) :=
  [("development", .development), ("testnet", .testnet), ("mainnet", .mainnet)]

instance : Codec Environment := choice Environment.names

namespace Setup

/-- The text of a setup. -/
def text (s : Setup) : String :=
  (Json.of s).indented

/-- The setup that a text holds. -/
def ofText (s : String) : Except SetupError Setup := do
  let some setup := Codec.ofText? s | throw .malformed
  setup.validate
  return setup

end Setup

end Clearing

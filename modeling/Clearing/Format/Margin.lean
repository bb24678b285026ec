import Clearing.Format.Units
import Clearing.Margin.Schedule

/-!
How margin tiers are written.
-/

namespace Clearing

open Codec

/-- The names of the fields of a margin tier. -/
def MarginTier.fieldNames : List String :=
  ["maintenance_margin_bps", "initial_margin_bps", "max_leverage", "active"]

instance : Codec MarginTier where
  encode x := record MarginTier.fieldNames [.of x.maintenance, .of x.initial, .of x.maxLeverage,
    .of x.active]
  decode j := do
    let [maintenance, initial, maxLeverage, active] ← fieldsOf? MarginTier.fieldNames j | none
    return {
      maintenance := ← field maintenance, initial := ← field initial,
      maxLeverage := ← field maxLeverage, active := ← field active }

/-- The names of the fields of a margin schedule. -/
def MarginSchedule.fieldNames : List String :=
  ["markets"]

instance : Codec MarginSchedule where
  encode x := record MarginSchedule.fieldNames [.of x.tiers]
  decode j := do
    let [tiers] ← fieldsOf? MarginSchedule.fieldNames j | none
    return { tiers := ← field tiers }

end Clearing
